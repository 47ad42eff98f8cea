import Decern.BoundedDelegation
import Mathlib.Tactic

/-!
# The proof suite

The invariants a model is proved to have: each is a guard, and holds when
whatever the policies allow the guard allows too.  The implication is asked of
a symbolic compiler, one request environment of the schema after the other.
-/

namespace Decern.ProofSuite

open Cedar (Expr Policy)
open Policies

/-- The types of the requests an action is declared for. -/
structure RequestEnv where
  principal : String
  action : Cedar.EntityUid
  resource : String
  deriving DecidableEq

structure Invariant where
  name : String
  statement : String
  guard : List Policy
  onlyActions : Option (List String)

structure ProofOutcome where
  name : String
  statement : String
  proven : Bool
  envsChecked : ℕ
  counterexample : Option String

inductive ProofError where
  | model (message : String)
  | guard (message : String)
  | solver (message : String)

/-! ## The invariants -/

def permitWhen (id : String) (action : Option Cedar.EntityUid)
    (condition : Expr) : Policy where
  id := id
  effect := .permit
  action := action
  clauses := [.when condition]

def isSet (flag : String) : Expr :=
  .and (.hasAttr context flag)
    (.eq (.getAttr context flag) (.lit (.bool true)))

def viewer : Expr :=
  .and (.hasAttr resource "viewers")
    (.contains (.getAttr resource "viewers") principal)

def cleared (label held : String) : Expr :=
  .or (.not (.hasAttr resource label))
    (.allOf (.hasAttr resource label) [.hasAttr principal held,
      .contains (.getAttr principal held) (.getAttr resource label)])

def personal : Expr :=
  .and (.hasAttr resource "sensitivity")
    (.eq (.getAttr resource "sensitivity") (.lit (.string "pii")))

def moneyGate : Invariant where
  name := "money-gate"
  statement :=
    "MoveMoney is never allowed unless the context carries " ++
    "human_approved = true"
  guard := [permitWhen "policy0" (some (actionUid "MoveMoney"))
    (isSet "human_approved")]
  onlyActions := some ["MoveMoney"]

def isolation : Invariant where
  name := "isolation"
  statement := "no allow ever crosses a tenant boundary"
  guard := [permitWhen "policy0" none sameTenant]
  onlyActions := none

def decay : Invariant where
  name := "decay"
  statement := "no allow once context.now > principal.expiry"
  guard := [permitWhen "policy0" none inWindow]
  onlyActions := none

def attenuationEdge : Invariant where
  name := "attenuation-edge"
  statement :=
    "no allow without ownership, a delegation ancestor, or an " ++
    "explicit relation edge — cvc5 proves flat `principal.ancestors` " ++
    "membership; the transitive closure that fills `ancestors` is " ++
    "trusted base"
  guard := [permitWhen "policy0" none (.or ownerOrDelegate viewer)]
  onlyActions := none

def scopeGate : Invariant where
  name := "scope-gate"
  statement :=
    "no action among \x7bRead, MoveMoney, AccessPII\x7d is allowed without " ++
    "its scope in principal.scopes — bounded to these three; any " ++
    "other action (e.g. an operator-added MCP action) is outside " ++
    "this invariant until it gets its own scope-name convention and " ++
    "a guard entry here"
  guard := [permitWhen "policy0" (some (actionUid "Read")) (inScope "read"),
    permitWhen "policy1" (some (actionUid "MoveMoney")) (inScope "move_money"),
    permitWhen "policy2" (some (actionUid "AccessPII")) (inScope "pii:read")]
  onlyActions := some ["Read", "MoveMoney", "AccessPII"]

def revocationGate : Invariant where
  name := "revocation-gate"
  statement :=
    "a principal whose effective `revoked` flag is set is never " ++
    "allowed anything — cvc5 proves allow⟹`revoked==false`; " ++
    "propagation of `revoked` from a revoked ancestor is trusted base"
  guard := [permitWhen "policy0" none
    (.eq (.getAttr principal "revoked") (.lit (.bool false)))]
  onlyActions := none

def residencyGate : Invariant where
  name := "residency-gate"
  statement :=
    "accessing a residency-labeled resource is never allowed (via " ++
    "any action) unless the principal is cleared for that " ++
    "jurisdiction"
  guard := [permitWhen "policy0" none (cleared "residency" "jurisdictions")]
  onlyActions := none

def roleGate : Invariant where
  name := "role-gate"
  statement :=
    "accessing a role-required resource is never allowed (via any " ++
    "action) unless the principal holds that role"
  guard := [permitWhen "policy0" none (cleared "required_role" "roles")]
  onlyActions := none

def consentGate : Invariant where
  name := "consent-gate"
  statement :=
    "accessing a pii-labeled resource the principal does not own is " ++
    "never allowed (via any action) unless the context carries " ++
    "consent = true"
  guard := [permitWhen "policy0" none (.or (.or (.not personal)
    (.eq (.getAttr resource "owner") principal)) (isSet "consent"))]
  onlyActions := none

def suite : List Invariant :=
  [moneyGate, isolation, decay, attenuationEdge, scopeGate, revocationGate,
    residencyGate, roleGate, consentGate]

/-! ## The prover -/

/-- The symbolic compiler, and the solver it asks. -/
structure SymCompiler (Schema Compiled : Type) where
  requestEnvs : Schema → List RequestEnv
  compile : List Policy → RequestEnv → Schema → Except String Compiled
  checkImplies : Compiled → Compiled → Except String Bool
  counterexample : Compiled → Compiled → Except String (Option String)

def Invariant.covers (inv : Invariant) (env : RequestEnv) : Bool :=
  match inv.onlyActions with
  | none => true
  | some actions => actions.any fun action => env.action = actionUid action

structure Tally where
  proven : Bool
  envsChecked : ℕ
  counterexample : Option String

def Invariant.outcome (inv : Invariant) (tally : Tally) : ProofOutcome where
  name := inv.name
  statement := inv.statement
  proven := tally.proven
  envsChecked := tally.envsChecked
  counterexample := tally.counterexample

section Prover

variable {S K : Type} (C : SymCompiler S K) (schema : S)
  (policies : List Policy)

/-- The environments in turn, until one has an allow outside the guard. -/
def checkEnvs (inv : Invariant) :
    ℕ → List RequestEnv → Except ProofError Tally
  | checked, [] => .ok ⟨true, checked, none⟩
  | checked, env :: rest =>
      if inv.covers env then do
        let compiled ← (C.compile policies env schema).mapError fun e =>
          ProofError.model ("compile policies: " ++ e)
        let guard ← (C.compile inv.guard env schema).mapError fun e =>
          ProofError.guard ("compile guard [" ++ inv.name ++ "]: " ++ e)
        let holds ← (C.checkImplies compiled guard).mapError ProofError.solver
        if holds then checkEnvs inv (checked + 1) rest
        else do
          let counterexample ←
            (C.counterexample compiled guard).mapError ProofError.solver
          return ⟨false, checked + 1, counterexample⟩
      else checkEnvs inv checked rest

def debugActions : Option (List String) → String
  | none => "None"
  | some actions =>
      "Some([" ++ String.intercalate ", "
        (actions.map fun action => "\"" ++ action ++ "\"") ++ "])"

/-- No environment at all is no proof. -/
def proveInvariantCompiled (inv : Invariant) :
    Except ProofError ProofOutcome := do
  let tally ← checkEnvs C schema policies inv 0 (C.requestEnvs schema)
  if tally.envsChecked = 0 then
    return inv.outcome ⟨false, 0, some
      ("invariant matched no request environments (only_actions=" ++
        debugActions inv.onlyActions ++ ") — schema/action drift?")⟩
  else return inv.outcome tally

def proveAll : Except ProofError (List ProofOutcome) :=
  suite.mapM (proveInvariantCompiled C schema policies)

end Prover

/-! ## What a proof says -/

/-- Whatever the policies allow of an environment the guard allows. -/
def Implies (admits : RequestEnv → Cedar.Request → Cedar.Entities → Prop)
    (env : RequestEnv) (policies guard : List Policy) : Prop :=
  ∀ request store, admits env request store →
    (Cedar.isAuthorized request store policies).allow = true →
      (Cedar.isAuthorized request store guard).allow = true

/-- The compiler's verdicts are about every request of the environment. -/
def SymCompiler.Truthful {S K : Type} (C : SymCompiler S K) (schema : S)
    (admits : RequestEnv → Cedar.Request → Cedar.Entities → Prop) : Prop :=
  ∀ policies guard env compiled compiledGuard verdict,
    C.compile policies env schema = .ok compiled →
      C.compile guard env schema = .ok compiledGuard →
        C.checkImplies compiled compiledGuard = .ok verdict →
          (verdict = true ↔ Implies admits env policies guard)

section Exact

variable {S K : Type} {C : SymCompiler S K} {schema : S}
  {policies : List Policy} {inv : Invariant}
  {admits : RequestEnv → Cedar.Request → Cedar.Entities → Prop}

/-- What one covered environment does to the loop. -/
theorem checkEnvs_cons {env : RequestEnv} {rest : List RequestEnv}
    {checked : ℕ} {tally : Tally} (hcovers : inv.covers env = true)
    (htruth : C.Truthful schema admits)
    (hok : checkEnvs C schema policies inv checked (env :: rest) =
      .ok tally) :
    (Implies admits env policies inv.guard ∧
        checkEnvs C schema policies inv (checked + 1) rest = .ok tally) ∨
      (¬ Implies admits env policies inv.guard ∧ tally.proven = false ∧
        tally.envsChecked = checked + 1) := by
  rw [checkEnvs, if_pos hcovers] at hok
  rcases Serde.bind_eq_ok.mp hok with ⟨compiled, hcompiled, hok⟩
  rcases Serde.bind_eq_ok.mp hok with ⟨guard, hguard, hok⟩
  rcases Serde.bind_eq_ok.mp hok with ⟨verdict, hverdict, hok⟩
  rw [Kernel.mapError_eq_ok] at hcompiled hguard hverdict
  have hexact := htruth _ _ _ _ _ _ hcompiled hguard hverdict
  by_cases hholds : verdict = true
  · rw [if_pos hholds] at hok
    exact Or.inl ⟨hexact.mp hholds, hok⟩
  · rw [if_neg hholds] at hok
    rcases Serde.bind_eq_ok.mp hok with ⟨found, _, hok⟩
    cases hok
    exact Or.inr ⟨fun himplies => hholds (hexact.mpr himplies), rfl, rfl⟩

/-- The loop proves what holds of every environment it covers, and has
checked one as soon as it covers one. -/
theorem checkEnvs_exact (htruth : C.Truthful schema admits)
    {envs : List RequestEnv} {checked : ℕ} {tally : Tally}
    (hok : checkEnvs C schema policies inv checked envs = .ok tally) :
    (tally.proven = true ↔ ∀ env ∈ envs, inv.covers env = true →
        Implies admits env policies inv.guard) ∧
      (tally.proven = true →
        tally.envsChecked = checked + (envs.filter inv.covers).length) ∧
      checked ≤ tally.envsChecked ∧
      (tally.envsChecked = checked → ∀ env ∈ envs, inv.covers env = false) := by
  induction envs generalizing checked with
  | nil =>
      cases hok
      simp
  | cons env rest ih =>
      by_cases hcovers : inv.covers env = true
      · rcases checkEnvs_cons hcovers htruth hok with
          ⟨himplies, hrest⟩ | ⟨hnot, hproven, hchecked⟩
        · rcases ih hrest with ⟨hiff, hcount, hmore, _⟩
          refine ⟨?_, ?_, by omega, by omega⟩
          · rw [hiff, List.forall_mem_cons]
            tauto
          · intro hproven
            rw [hcount hproven, List.filter_cons_of_pos hcovers,
              List.length_cons]
            omega
        · refine ⟨?_, ?_, by omega, by omega⟩
          · rw [hproven, List.forall_mem_cons]
            simp only [Bool.false_eq_true, false_iff, not_and]
            intro himplies
            exact absurd (himplies hcovers) hnot
          · rw [hproven]
            simp
      · rw [checkEnvs, if_neg hcovers] at hok
        rcases ih hok with ⟨hiff, hcount, hmore, hnone⟩
        refine ⟨?_, ?_, hmore, ?_⟩
        · rw [hiff, List.forall_mem_cons]
          tauto
        · rw [List.filter_cons_of_neg hcovers]
          exact hcount
        · intro hsame
          rw [List.forall_mem_cons]
          exact ⟨Bool.not_eq_true _ ▸ hcovers, hnone hsame⟩

end Exact

end Decern.ProofSuite
