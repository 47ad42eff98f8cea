import Decern.ProofSuite
import Mathlib.Tactic

/-!
# The suite over the built-in policies

Where a request, its entities and its context have the attributes the schema
declares, an allow under the built-in policies is within every guard.
-/

namespace Decern.ProofSuite

open Cedar (Expr Policy evaluate)
open Policies

/-! ## Typed instances -/

def AttrType.admits : AttrType → Cedar.Datum → Bool
  | .string, .prim (.string _) => true
  | .long, .prim (.long _) => true
  | .bool, .prim (.bool _) => true
  | .entity ty, .prim (.entity uid) => uid.ty == ty
  | .stringSet, .set members =>
      members.all fun
        | .string _ => true
        | _ => false
  | .entitySet ty, .set members =>
      members.all fun
        | .entity uid => uid.ty == ty
        | _ => false
  | _, _ => false

/-- Attributes of the declared types, the required ones among them. -/
structure Typed (decls : List AttrDecl) (attrs : Cedar.Attrs) : Prop where
  declared : ∀ decl ∈ decls, ∀ datum,
    attrs.lookup decl.name = some datum →
      AttrType.admits decl.ty datum = true
  present : ∀ decl ∈ decls, decl.optional = false →
    (attrs.lookup decl.name).isSome

/-- A request of an environment, with both entities in the store. -/
structure Instance (env : RequestEnv) (request : Cedar.Request)
    (store : Cedar.Entities) : Prop where
  principal : request.principal.ty = env.principal
  action : request.action = env.action
  resource : request.resource.ty = env.resource
  held : ∃ held, store request.principal = some held ∧
    Typed (declaredAttrs env.principal) held
  owned : ∃ owned, store request.resource = some owned ∧
    Typed (declaredAttrs env.resource) owned
  context : Typed (declaredContext env.action.id) request.context

/-- The environments of the built-in schema. -/
def builtinEnvs : List RequestEnv :=
  ["Read", "MoveMoney", "AccessPII"].map fun action =>
    ⟨"Principal", actionUid action, "Resource"⟩

section Declared

variable {decls : List AttrDecl} {attrs : Cedar.Attrs} {name : String}
  {optional : Bool}

theorem Typed.bool (htyped : Typed decls attrs)
    (hdecl : ⟨name, .bool, optional⟩ ∈ decls) :
    ∃ value : Option Bool, attrs.lookup name =
      value.map fun flag => .prim (.bool flag) := by
  cases hlookup : attrs.lookup name with
  | none => exact ⟨none, rfl⟩
  | some datum =>
      have hadmits := htyped.declared _ hdecl datum hlookup
      unfold AttrType.admits at hadmits
      split at hadmits <;> simp_all only [reduceCtorEq]
      exact ⟨some _, rfl⟩

theorem Typed.string (htyped : Typed decls attrs)
    (hdecl : ⟨name, .string, optional⟩ ∈ decls) :
    ∃ value : Option String, attrs.lookup name =
      value.map fun text => .prim (.string text) := by
  cases hlookup : attrs.lookup name with
  | none => exact ⟨none, rfl⟩
  | some datum =>
      have hadmits := htyped.declared _ hdecl datum hlookup
      unfold AttrType.admits at hadmits
      split at hadmits <;> simp_all only [reduceCtorEq]
      exact ⟨some _, rfl⟩

theorem Typed.entity {ty : String} (htyped : Typed decls attrs)
    (hdecl : ⟨name, .entity ty, false⟩ ∈ decls) :
    ∃ uid, attrs.lookup name = some (.prim (.entity uid)) := by
  have hsome := htyped.present _ hdecl rfl
  rcases Option.isSome_iff_exists.mp hsome with ⟨datum, hlookup⟩
  have hadmits := htyped.declared _ hdecl datum hlookup
  unfold AttrType.admits at hadmits
  split at hadmits <;> simp_all only [reduceCtorEq]
  exact ⟨_, rfl⟩

theorem Typed.stringSet (htyped : Typed decls attrs)
    (hdecl : ⟨name, .stringSet, optional⟩ ∈ decls) :
    attrs.lookup name = none ∨ ∃ members,
      attrs.lookup name = some (.set members) := by
  cases hlookup : attrs.lookup name with
  | none => exact Or.inl rfl
  | some datum =>
      have hadmits := htyped.declared _ hdecl datum hlookup
      unfold AttrType.admits at hadmits
      split at hadmits <;> simp_all only [reduceCtorEq]
      exact Or.inr ⟨_, rfl⟩

theorem Typed.entitySet {ty : String} (htyped : Typed decls attrs)
    (hdecl : ⟨name, .entitySet ty, false⟩ ∈ decls) :
    ∃ members, attrs.lookup name = some (.set members) := by
  have hsome := htyped.present _ hdecl rfl
  rcases Option.isSome_iff_exists.mp hsome with ⟨datum, hlookup⟩
  have hadmits := htyped.declared _ hdecl datum hlookup
  unfold AttrType.admits at hadmits
  split at hadmits <;> simp_all only [reduceCtorEq]
  exact ⟨_, rfl⟩

end Declared

/-! ## Guards -/

section Guards

variable {request : Cedar.Request} {store : Cedar.Entities}
  {held owned : Cedar.Attrs}

theorem holds_permitWhen {id : String} {action : Option Cedar.EntityUid}
    {condition : Expr}
    (hscope : ∀ uid, action = some uid → request.action = uid)
    (hholds : Cedar.Holds request store condition) :
    Cedar.Holds request store (permitWhen id action condition).condition := by
  rw [Cedar.holds_condition]
  constructor
  · cases action with
    | none => exact Cedar.holds_scope_any rfl
    | some uid => exact (Cedar.holds_scope_iff rfl).mpr (hscope uid rfl)
  · simpa [permitWhen, Cedar.Clause.expr] using hholds

theorem allow_of_permits {guard : List Policy} {policy : Policy}
    (hpermits : ∀ policy ∈ guard, policy.effect = .permit)
    (hmem : policy ∈ guard)
    (hholds : Cedar.Holds request store policy.condition) :
    (Cedar.isAuthorized request store guard).allow = true := by
  rw [Cedar.isAuthorized_allow_iff]
  constructor
  · exact ⟨policy, hmem, hpermits policy hmem, hholds⟩
  · intro other hother heffect
    rw [hpermits other hother] at heffect
    cases heffect

/-- A guard of one permit over any request. -/
theorem allow_of_guard {id : String} {condition : Expr}
    (hholds : Cedar.Holds request store condition) :
    (Cedar.isAuthorized request store
      [permitWhen id none condition]).allow = true := by
  apply allow_of_permits _ (List.mem_singleton_self _)
  · apply holds_permitWhen _ hholds
    intro uid huid
    cases huid
  · simp [permitWhen]

theorem holds_isSet {flag : String}
    (hflag : request.context.lookup flag = some (.prim (.bool true))) :
    Cedar.Holds request store (isSet flag) := by
  have hhas : evaluate request store (.hasAttr context flag) = _ :=
    Cedar.evaluate_context_has
  have htrue : evaluate request store (.lit (.bool true)) = _ := rfl
  rw [isSet, Cedar.holds_and]
  constructor
  · rw [Cedar.Holds, hhas, hflag]
    rfl
  · rw [Cedar.Holds, Cedar.evaluate_eq (evaluate_context hflag) htrue]
    rfl

theorem holds_hasAttr {name : Cedar.Var} {uid : Cedar.EntityUid}
    {attrs : Cedar.Attrs} {attr : String}
    (hname : name.value request = .datum (.prim (.entity uid)))
    (huid : store uid = some attrs) (hsome : (attrs.lookup attr).isSome) :
    Cedar.Holds request store (.hasAttr (.var name) attr) := by
  rw [Cedar.Holds, Cedar.evaluate_has hname huid, hsome]

theorem fails_hasAttr {name : Cedar.Var} {uid : Cedar.EntityUid}
    {attrs : Cedar.Attrs} {attr : String}
    (hname : name.value request = .datum (.prim (.entity uid)))
    (huid : store uid = some attrs) (hnone : attrs.lookup attr = none) :
    Cedar.Fails request store (.hasAttr (.var name) attr) := by
  rw [Cedar.Fails, Cedar.evaluate_has hname huid, hnone]
  rfl

/-- What is not forbidden of a labeled resource is cleared. -/
theorem holds_cleared {label attr : String} {value : Option String}
    (hprincipal : store request.principal = some held)
    (hresource : store request.resource = some owned)
    (hlabel : owned.lookup label = value.map fun text => .prim (.string text))
    (hset : held.lookup attr = none ∨
      ∃ members, held.lookup attr = some (.set members))
    (hnot : ¬ Cedar.Holds request store (labeled label attr)) :
    Cedar.Holds request store (cleared label attr) := by
  cases value with
  | none =>
      apply Cedar.holds_or_left
      exact Cedar.holds_not.mpr (fails_hasAttr rfl hresource hlabel)
  | some text =>
      have hhas : Cedar.Holds request store (.hasAttr resource label) :=
        holds_hasAttr rfl hresource (by rw [hlabel]; rfl)
      apply Cedar.holds_or_right (Cedar.fails_not hhas)
      have hinner : ¬ Cedar.Fails request store
          (.and (.hasAttr principal attr) (.contains (.getAttr principal attr)
            (.getAttr resource label))) := by
        intro hfails
        exact hnot (Cedar.holds_and.mpr ⟨hhas, Cedar.holds_not.mpr hfails⟩)
      rcases hset with hnone | ⟨members, hmembers⟩
      · exact absurd (Cedar.fails_and_left
          (fails_hasAttr rfl hprincipal hnone)) hinner
      · have hheld : Cedar.Holds request store (.hasAttr principal attr) :=
          holds_hasAttr rfl hprincipal (by rw [hmembers]; rfl)
        have hcontains := Cedar.evaluate_contains
          (evaluate_principal hprincipal hmembers)
          (evaluate_resource hresource hlabel)
        rw [Cedar.holds_allOf, List.forall_mem_cons, List.forall_mem_singleton]
        refine ⟨hhas, hheld, ?_⟩
        by_cases hmem : Cedar.Prim.string text ∈ members
        · rw [Cedar.Holds, hcontains, decide_eq_true hmem]
        · rw [decide_eq_false hmem] at hcontains
          exact absurd (Cedar.fails_and hheld hcontains) hinner

/-- Owning and delegation are read without an error. -/
theorem holds_or_fails_owner {uid : Cedar.EntityUid}
    {members : List Cedar.Prim}
    (hprincipal : store request.principal = some held)
    (hresource : store request.resource = some owned)
    (howner : owned.lookup "owner" = some (.prim (.entity uid)))
    (hancestors : held.lookup "ancestors" = some (.set members)) :
    Cedar.Holds request store ownerOrDelegate ∨
      Cedar.Fails request store ownerOrDelegate := by
  have hself : evaluate request store principal = _ := rfl
  have hvalue := evaluate_resource hresource howner
  have hequal := Cedar.evaluate_eq hvalue hself
  have hcontains := Cedar.evaluate_contains
    (evaluate_principal hprincipal hancestors) hvalue
  cases hsame : (Cedar.Value.datum (.prim (.entity uid))).same
      (Cedar.Var.value request .principal) with
  | true =>
      rw [hsame] at hequal
      exact Or.inl (Cedar.holds_or_left hequal)
  | false =>
      rw [hsame] at hequal
      by_cases hmem : Cedar.Prim.entity uid ∈ members
      · rw [decide_eq_true hmem] at hcontains
        exact Or.inl (Cedar.holds_or_right hequal hcontains)
      · rw [decide_eq_false hmem] at hcontains
        exact Or.inr (Cedar.fails_or hequal hcontains)

theorem holds_viewer
    (hholds : Cedar.Holds request store
      (.contains (.getAttr resource "viewers") principal)) :
    Cedar.Holds request store viewer := by
  rcases hholds.contains with ⟨members, item, hset, _, _⟩
  have hname : Cedar.Var.resource.value request =
      .datum (.prim (.entity request.resource)) := rfl
  rcases (Cedar.evaluate_attr_ok hname).mp hset with
    ⟨attrs, datum, hattrs, hlookup, _⟩
  rw [viewer, Cedar.holds_and]
  exact ⟨holds_hasAttr hname hattrs (by rw [hlookup]; rfl), hholds⟩

/-- Personal data is the principal's own or accessed with consent. -/
theorem holds_consent {uid : Cedar.EntityUid} {label : Option String}
    {consent : Option Bool} (hresource : store request.resource = some owned)
    (howner : owned.lookup "owner" = some (.prim (.entity uid)))
    (hlabel : owned.lookup "sensitivity" =
      label.map fun text => .prim (.string text))
    (hconsent : request.context.lookup "consent" =
      consent.map fun flag => .prim (.bool flag))
    (hnot : ¬ Cedar.Holds request store fConsent.condition) :
    Cedar.Holds request store (.or (.or (.not personal)
      (.eq (.getAttr resource "owner") principal)) (isSet "consent")) := by
  have hself : evaluate request store principal = _ := rfl
  have hequal := Cedar.evaluate_eq (evaluate_resource hresource howner) hself
  cases label with
  | none =>
      apply Cedar.holds_or_left
      apply Cedar.holds_or_left
      apply Cedar.holds_not.mpr
      exact Cedar.fails_and_left (fails_hasAttr rfl hresource hlabel)
  | some text =>
      have hhas : Cedar.Holds request store
          (.hasAttr resource "sensitivity") :=
        holds_hasAttr rfl hresource (by rw [hlabel]; rfl)
      have hpii : evaluate request store (.lit (.string "pii")) = _ := rfl
      have hsensitive := Cedar.evaluate_eq
        (evaluate_resource hresource hlabel) hpii
      cases hkind : (Cedar.Value.datum (.prim (.string text))).same
          (.datum (.prim (.string "pii"))) with
      | false =>
          rw [hkind] at hsensitive
          apply Cedar.holds_or_left
          apply Cedar.holds_or_left
          exact Cedar.holds_not.mpr (Cedar.fails_and hhas hsensitive)
      | true =>
          rw [hkind] at hsensitive
          have hpersonal : Cedar.Fails request store (.not personal) :=
            Cedar.fails_not (Cedar.holds_and.mpr ⟨hhas, hsensitive⟩)
          cases hown : (Cedar.Value.datum (.prim (.entity uid))).same
              (Cedar.Var.value request .principal) with
          | true =>
              rw [hown] at hequal
              exact Cedar.holds_or_left
                (Cedar.holds_or_right hpersonal hequal)
          | false =>
              rw [hown] at hequal
              apply Cedar.holds_or_right (Cedar.fails_or hpersonal hequal)
              apply holds_isSet
              have hset : consent = some true := by
                apply flag_of_not_fails hconsent
                intro hfails
                apply hnot
                rw [Cedar.holds_condition]
                refine ⟨Cedar.holds_scope_any rfl, ?_⟩
                rw [fConsent, List.forall_mem_cons, List.forall_mem_singleton]
                refine ⟨Cedar.holds_allOf.mpr ⟨hhas, ?_⟩,
                  Cedar.holds_not.mpr hfails⟩
                rw [List.forall_mem_cons, List.forall_mem_singleton]
                exact ⟨hsensitive, Cedar.holds_not.mpr hequal⟩
              rw [hconsent, hset]
              rfl

end Guards

/-! ## Every invariant -/

section Suite

variable {env : RequestEnv} {request : Cedar.Request}
  {store : Cedar.Entities}

theorem of_builtinEnv (henv : env ∈ builtinEnvs) :
    env.principal = "Principal" ∧ env.resource = "Resource" ∧
      ⟨"consent", .bool, true⟩ ∈ declaredContext env.action.id ∧
      (env.action = actionUid "MoveMoney" →
        ⟨"human_approved", .bool, true⟩ ∈ declaredContext env.action.id) := by
  simp only [builtinEnvs, List.map_cons, List.map_nil, List.mem_cons,
    List.not_mem_nil, or_false] at henv
  rcases henv with rfl | rfl | rfl <;> simp [declaredContext, actionUid]

theorem moneyGate_allows {value : Option Bool}
    (haction : request.action = actionUid "MoveMoney")
    (hflag : request.context.lookup "human_approved" =
      value.map fun flag => .prim (.bool flag))
    (hnot : ¬ Cedar.Holds request store fMoney.condition) :
    (Cedar.isAuthorized request store moneyGate.guard).allow = true := by
  have hset := approved_of_not_fMoney haction hflag hnot
  apply allow_of_permits _ (List.mem_singleton_self _)
  · apply holds_permitWhen
    · intro uid huid
      rw [haction]
      exact Option.some.inj huid
    · apply holds_isSet
      rw [hflag, hset]
      rfl
  · simp [permitWhen]

theorem scopeGate_allows {action scope : String}
    (hpermitted : Permitted request store action scope) :
    (Cedar.isAuthorized request store scopeGate.guard).allow = true := by
  have hmapped := hpermitted.mapped
  have hpermits : ∀ policy ∈ scopeGate.guard, policy.effect = .permit := by
    simp [scopeGate, permitWhen]
  have hallows : ∀ id, permitWhen id (some (actionUid action))
      (inScope scope) ∈ scopeGate.guard →
        (Cedar.isAuthorized request store scopeGate.guard).allow = true := by
    intro id hmem
    apply allow_of_permits hpermits hmem
    apply holds_permitWhen _ hpermitted.scope
    intro uid huid
    rw [hpermitted.named]
    exact Option.some.inj huid
  unfold scopeForAction at hmapped
  split at hmapped
  case h_1 =>
    cases hmapped
    exact hallows "policy0" (by simp [scopeGate])
  case h_2 =>
    cases hmapped
    exact hallows "policy1" (by simp [scopeGate])
  case h_3 =>
    cases hmapped
    exact hallows "policy2" (by simp [scopeGate])
  case h_4 => cases hmapped

theorem holds_unrevoked {held : Cedar.Attrs} {value : Option Bool}
    (hprincipal : store request.principal = some held)
    (hsome : (held.lookup "revoked").isSome)
    (hrevoked : held.lookup "revoked" =
      value.map fun flag => .prim (.bool flag))
    (hnot : ¬ Cedar.Holds request store (.getAttr principal "revoked")) :
    Cedar.Holds request store
      (.eq (.getAttr principal "revoked") (.lit (.bool false))) := by
  cases value with
  | none =>
      rw [hrevoked] at hsome
      cases hsome
  | some flag =>
      have hvalue := evaluate_principal hprincipal hrevoked
      have hfalse : evaluate request store (.lit (.bool false)) = _ := rfl
      cases flag with
      | true => exact absurd hvalue hnot
      | false =>
          rw [Cedar.Holds, Cedar.evaluate_eq hvalue hfalse]
          rfl

theorem holds_attenuated {held owned : Cedar.Attrs} {uid : Cedar.EntityUid}
    {members : List Cedar.Prim} {action scope : String}
    (hprincipal : store request.principal = some held)
    (hresource : store request.resource = some owned)
    (howner : owned.lookup "owner" = some (.prim (.entity uid)))
    (hancestors : held.lookup "ancestors" = some (.set members))
    (hpermitted : Permitted request store action scope) :
    Cedar.Holds request store (.or ownerOrDelegate viewer) := by
  rcases hpermitted.related with howns | ⟨_, hviews⟩
  · exact Cedar.holds_or_left howns
  · rcases holds_or_fails_owner hprincipal hresource howner hancestors with
      howns | hnot
    · exact Cedar.holds_or_left howns
    · exact Cedar.holds_or_right hnot (holds_viewer hviews)

/-- An allow under the built-in policies is within the guard of every
invariant that covers its environment. -/
theorem guarded_of_allow (henv : env ∈ builtinEnvs)
    (hinstance : Instance env request store)
    (hallow : (Cedar.isAuthorized request store authority).allow = true)
    {inv : Invariant} (hinv : inv ∈ suite) (hcovers : inv.covers env = true) :
    (Cedar.isAuthorized request store inv.guard).allow = true := by
  rcases (Cedar.isAuthorized_allow_iff authority).mp hallow with
    ⟨hpermit, hforbid⟩
  rcases permitted_of_permit hpermit with ⟨action, scope, hpermitted⟩
  rcases of_builtinEnv henv with ⟨hprincipal, hresource, hconsent, hmoney⟩
  rcases hinstance.held with ⟨held, hheld, hpattrs⟩
  rcases hinstance.owned with ⟨owned, howned, hrattrs⟩
  have hcontext := hinstance.context
  rw [hprincipal] at hpattrs
  rw [hresource] at hrattrs
  have hnot : ∀ policy ∈ authority, policy.effect = .forbid → ∀ condition,
      policy.action = none → policy.clauses = [.when condition] →
        ¬ Cedar.Holds request store condition := by
    intro policy hmem heffect condition haction hclauses
    exact not_holds_of_forbid haction hclauses (hforbid policy hmem heffect)
  have hlabels : ∀ label attr, ⟨label, .string, true⟩ ∈
      declaredAttrs "Resource" → ⟨attr, .stringSet, true⟩ ∈
        declaredAttrs "Principal" →
      ¬ Cedar.Holds request store (labeled label attr) →
        Cedar.Holds request store (cleared label attr) := by
    intro label attr hlabel hattr hunlabeled
    rcases hrattrs.string hlabel with ⟨value, hvalue⟩
    exact holds_cleared hheld howned hvalue (hpattrs.stringSet hattr)
      hunlabeled
  have howner := hrattrs.entity
    (show ⟨"owner", .entity "Principal", false⟩ ∈ declaredAttrs "Resource" by
      simp [declaredAttrs])
  rcases howner with ⟨uid, howner⟩
  simp only [suite, List.mem_cons, List.not_mem_nil, or_false] at hinv
  rcases hinv with rfl | rfl | rfl | rfl | rfl | rfl | rfl | rfl | rfl
  · have haction : env.action = actionUid "MoveMoney" := by
      simpa [Invariant.covers, moneyGate] using hcovers
    rcases hcontext.bool (hmoney haction) with ⟨value, hflag⟩
    exact moneyGate_allows (hinstance.action.trans haction) hflag
      (hforbid fMoney (by simp [authority]) rfl)
  · exact allow_of_guard hpermitted.tenant
  · exact allow_of_guard hpermitted.window
  · rcases hpattrs.entitySet (show ⟨"ancestors", .entitySet "Principal",
      false⟩ ∈ declaredAttrs "Principal" by simp [declaredAttrs]) with
      ⟨members, hancestors⟩
    exact allow_of_guard
      (holds_attenuated hheld howned howner hancestors hpermitted)
  · exact scopeGate_allows hpermitted
  · have hdecl : ⟨"revoked", .bool, false⟩ ∈ declaredAttrs "Principal" := by
      simp [declaredAttrs]
    rcases hpattrs.bool hdecl with ⟨value, hrevoked⟩
    exact allow_of_guard (holds_unrevoked hheld (hpattrs.present _ hdecl rfl)
      hrevoked (hnot fRevoked (by simp [authority]) rfl _ rfl rfl))
  · exact allow_of_guard (hlabels _ _ (by simp [declaredAttrs])
      (by simp [declaredAttrs])
      (hnot fResidency (by simp [authority]) rfl _ rfl rfl))
  · exact allow_of_guard (hlabels _ _ (by simp [declaredAttrs])
      (by simp [declaredAttrs])
      (hnot fRole (by simp [authority]) rfl _ rfl rfl))
  · rcases hrattrs.string (show ⟨"sensitivity", .string, true⟩ ∈
      declaredAttrs "Resource" by simp [declaredAttrs]) with ⟨label, hlabel⟩
    rcases hcontext.bool hconsent with ⟨consent, hflag⟩
    exact allow_of_guard (holds_consent howned howner hlabel hflag
      (hforbid fConsent (by simp [authority]) rfl))

end Suite

/-! ## What the kernel decides on -/

theorem admits_read {ty : AttrType} {value : Serde.Value}
    {datum : Cedar.Datum} (hread : ty.read value = some datum) :
    AttrType.admits ty datum = true := by
  cases ty with
  | string =>
      rcases Option.map_eq_some_iff.mp hread with ⟨text, _, rfl⟩
      rfl
  | long =>
      rcases Option.map_eq_some_iff.mp hread with ⟨long, _, rfl⟩
      rfl
  | bool =>
      rcases Option.map_eq_some_iff.mp hread with ⟨flag, _, rfl⟩
      rfl
  | entity ty =>
      simp only [AttrType.read] at hread
      split at hread
      case h_1 =>
        cases hread
        simp [AttrType.admits]
      case h_2 => cases hread
  | stringSet =>
      rcases Option.map_eq_some_iff.mp hread with ⟨texts, _, rfl⟩
      simp [AttrType.admits]
  | entitySet ty =>
      rcases Option.map_eq_some_iff.mp hread with ⟨ids, _, rfl⟩
      simp [AttrType.admits]

theorem typed_of_conforms {decls : List AttrDecl} {members : Serde.Map}
    {attrs : Cedar.Attrs} (hconforms : Conforms decls members attrs) :
    Typed decls attrs where
  declared decl hdecl datum hlookup := by
    rw [(hconforms decl hdecl).1] at hlookup
    rcases Option.bind_eq_some_iff.mp hlookup with ⟨value, _, hread⟩
    exact admits_read hread
  present decl hdecl hrequired := by
    rcases hconforms decl hdecl with ⟨hlookup, hreads, hpresent⟩
    rcases Option.isSome_iff_exists.mp (hpresent hrequired) with
      ⟨value, hvalue⟩
    rw [hlookup, hvalue, Option.bind_some]
    exact hreads value hvalue

section Enforced

variable {S : Type} {engine : Engine S (List Policy) Cedar.Entities Cedar.Attrs}
  {schema : S}

theorem typed_of_stored (hcedar : engine.ReadsAuthority schema)
    {entities : Serde.Value} {dir : Graph.Directory} {store : Cedar.Entities}
    {uid : Cedar.EntityUid} {attrs : Cedar.Attrs}
    (hstore : engine.readEntities schema (injectDerived entities dir) =
      .ok store)
    (hty : uid.ty ≠ "Action") (hattrs : store uid = some attrs) :
    Typed (declaredAttrs uid.ty) attrs := by
  rcases hcedar.entities _ _ hstore with ⟨hread, hsource⟩
  rcases hsource uid attrs hattrs hty with ⟨entity, hentity, huid⟩
  rcases hread entity hentity with ⟨members, stored, _, hstored, hconforms⟩
  rw [huid] at hstored hconforms
  have hsame : stored = attrs := Option.some.inj (hstored.symm.trans hattrs)
  rw [← hsame]
  exact typed_of_conforms hconforms

/-- A kernel under the built-in policies allows what every guard allows. -/
theorem guarded_of_check (hcedar : engine.ReadsAuthority schema)
    {entities context : Serde.Value}
    {kernel : Kernel S (List Policy) Cedar.Entities}
    {subject resource : EntityRef} {action : String}
    (hnew : Kernel.new engine ⟨schema, authority, entities⟩ = .ok kernel)
    (hallow : (kernel.check engine subject action resource context).decision =
      true) :
    ∃ ctx, engine.readContext schema (actionUid action) context = .ok ctx ∧
      ∀ inv ∈ suite,
        inv.covers ⟨subject.ty, actionUid action, resource.ty⟩ = true →
          (Cedar.isAuthorized ⟨⟨subject.ty, subject.id⟩, actionUid action,
            ⟨resource.ty, resource.id⟩, ctx⟩ kernel.entities
            inv.guard).allow = true := by
  have hloaded := Kernel.new_eq_ok_iff.mp hnew
  rcases Kernel.asked_of_allow hallow with
    ⟨response, _, _, _, ctx, now, hdecision, hasked⟩
  obtain rfl := uid_eq hcedar hasked.subjectUid
  obtain rfl := uid_eq hcedar hasked.actionRead
  obtain rfl := uid_eq hcedar hasked.resourceRead
  have hschema : kernel.schema = schema := hloaded.schema
  have hcontext := hasked.contextRead
  have hrequest := hasked.request
  rw [hschema] at hcontext hrequest
  rcases hcedar.request _ _ _ _ hrequest with ⟨hsubject, hresource⟩
  simp only at hsubject hresource
  have hdecides := hcedar.authorizer ⟨subject.ty, subject.id⟩
    ⟨"Action", action⟩ ⟨resource.ty, resource.id⟩ ctx kernel.policies
    kernel.entities
  rw [← hasked.answer, hdecision, hloaded.policies] at hdecides
  have hpermit :=
    ((Cedar.isAuthorized_allow_iff authority).mp hdecides.symm).1
  rcases permitted_of_permit hpermit with ⟨found, scope, hpermitted⟩
  rcases stored_of_sameTenant hpermitted.tenant with
    ⟨held, owned, hheld, howned, _⟩
  have hneither : subject.ty ≠ "Action" ∧ resource.ty ≠ "Action" := by
    rw [hsubject, hresource]
    decide
  have hprincipal :=
    typed_of_stored hcedar hloaded.entities hneither.1 hheld
  have htarget := typed_of_stored hcedar hloaded.entities hneither.2 howned
  rcases hcedar.context action _ _ hcontext with ⟨members, _, hconforms⟩
  refine ⟨ctx, hcontext, ?_⟩
  intro inv hinv hcovers
  have henv : (⟨subject.ty, actionUid action, resource.ty⟩ : RequestEnv) ∈
      builtinEnvs := by
    have hnamed : action = found := by
      simpa [actionUid] using hpermitted.named
    have hmapped := hpermitted.mapped
    rw [← hnamed] at hmapped
    rw [hsubject, hresource]
    unfold scopeForAction at hmapped
    split at hmapped
    · simp [builtinEnvs]
    · simp [builtinEnvs]
    · simp [builtinEnvs]
    · cases hmapped
  exact guarded_of_allow henv {
    principal := rfl
    action := rfl
    resource := rfl
    held := ⟨held, hheld, hprincipal⟩
    owned := ⟨owned, howned, htarget⟩
    context := typed_of_conforms hconforms } hdecides.symm hinv hcovers

end Enforced

/-! ## The proofs -/

section Proven

variable {S K : Type} {C : SymCompiler S K} {schema : S}
  {policies : List Policy} {inv : Invariant}
  {admits : RequestEnv → Cedar.Request → Cedar.Entities → Prop}

/-- Where every covered environment is implied, the loop proves it. -/
theorem checkEnvs_proven (htruth : C.Truthful schema admits)
    {envs : List RequestEnv} {checked : ℕ}
    (hcompiles : ∀ env ∈ envs, inv.covers env = true →
      (∃ compiled, C.compile policies env schema = .ok compiled) ∧
        ∃ guard, C.compile inv.guard env schema = .ok guard)
    (hanswers : ∀ compiled guard,
      ∃ verdict, C.checkImplies compiled guard = .ok verdict)
    (himplies : ∀ env ∈ envs, inv.covers env = true →
      Implies admits env policies inv.guard) :
    checkEnvs C schema policies inv checked envs =
      .ok ⟨true, checked + (envs.filter inv.covers).length, none⟩ := by
  induction envs generalizing checked with
  | nil => rfl
  | cons env rest ih =>
      rw [List.forall_mem_cons] at hcompiles himplies
      by_cases hcovers : inv.covers env = true
      · rcases hcompiles.1 hcovers with
          ⟨⟨compiled, hcompiled⟩, guard, hguard⟩
        rcases hanswers compiled guard with ⟨verdict, hverdict⟩
        have htrue : verdict = true :=
          (htruth _ _ _ _ _ _ hcompiled hguard hverdict).mpr
            (himplies.1 hcovers)
        rw [htrue] at hverdict
        rw [checkEnvs, if_pos hcovers]
        simp only [hcompiled, hguard, hverdict, Except.mapError, bind,
          Except.bind, if_true]
        rw [ih hcompiles.2 himplies.2, List.filter_cons_of_pos hcovers,
          List.length_cons]
        congr 2
        omega
      · rw [checkEnvs, if_neg hcovers, List.filter_cons_of_neg hcovers]
        exact ih hcompiles.2 himplies.2

theorem proven_iff (htruth : C.Truthful schema admits)
    {outcome : ProofOutcome}
    (hok : proveInvariantCompiled C schema policies inv = .ok outcome) :
    outcome.proven = true ↔
      (∃ env ∈ C.requestEnvs schema, inv.covers env = true) ∧
        ∀ env ∈ C.requestEnvs schema, inv.covers env = true →
          Implies admits env policies inv.guard := by
  rcases Serde.bind_eq_ok.mp hok with ⟨tally, htally, hok⟩
  rcases checkEnvs_exact htruth htally with ⟨hiff, hcount, _, hnone⟩
  by_cases hzero : tally.envsChecked = 0
  · rw [if_pos hzero] at hok
    cases hok
    simp only [Invariant.outcome, Bool.false_eq_true, false_iff, not_and]
    rintro ⟨env, henv, hcovers⟩
    rw [hnone hzero env henv] at hcovers
    cases hcovers
  · rw [if_neg hzero] at hok
    cases hok
    simp only [Invariant.outcome]
    rw [hiff]
    constructor
    · intro hall
      refine ⟨?_, hall⟩
      by_contra hempty
      push Not at hempty
      apply hzero
      rw [hcount (hiff.mpr hall), Nat.zero_add, List.length_eq_zero_iff,
        List.filter_eq_nil_iff]
      exact hempty
    · exact And.right

theorem mapM_of_forall {α β ε : Type} {f : α → Except ε β} {g : α → β}
    {items : List α} (hall : ∀ item ∈ items, f item = .ok (g item)) :
    items.mapM f = .ok (items.map g) := by
  induction items with
  | nil => rfl
  | cons item rest ih =>
      rw [List.forall_mem_cons] at hall
      rw [List.mapM_cons, hall.1, ih hall.2]
      rfl

theorem covered_ne_zero (hinv : inv ∈ suite) :
    (builtinEnvs.filter inv.covers).length ≠ 0 := by
  simp only [suite, List.mem_cons, List.not_mem_nil, or_false] at hinv
  rcases hinv with rfl | rfl | rfl | rfl | rfl | rfl | rfl | rfl | rfl <;>
    decide

/-- What the prover reports of any policies holds of every request of the
environments it covers.  Of the built-in policies it reports every invariant
proven, and a kernel under them allows nothing outside a guard. -/
theorem suite_proven (C : SymCompiler S K) (schema : S)
    (admits : RequestEnv → Cedar.Request → Cedar.Entities → Prop)
    (hadmits : ∀ env request store, admits env request store →
      Instance env request store)
    (henvs : (C.requestEnvs schema).Perm builtinEnvs)
    (htruth : C.Truthful schema admits)
    (hcompiles : ∀ policies ∈ authority :: suite.map Invariant.guard,
      ∀ env ∈ builtinEnvs,
        ∃ compiled, C.compile policies env schema = .ok compiled)
    (hanswers : ∀ compiled guard,
      ∃ verdict, C.checkImplies compiled guard = .ok verdict)
    (engine : Engine S (List Policy) Cedar.Entities Cedar.Attrs)
    (hcedar : engine.ReadsAuthority schema) :
    (∀ policies inv outcome,
      proveInvariantCompiled C schema policies inv = .ok outcome →
        (outcome.proven = true ↔
          (∃ env ∈ C.requestEnvs schema, inv.covers env = true) ∧
            ∀ env ∈ C.requestEnvs schema, inv.covers env = true →
              Implies admits env policies inv.guard)) ∧
      proveAll C schema authority = .ok (suite.map fun inv => inv.outcome
        ⟨true, (builtinEnvs.filter inv.covers).length, none⟩) ∧
      ∀ entities kernel, Kernel.new engine ⟨schema, authority, entities⟩ =
          .ok kernel →
        ∀ subject action resource context,
          (kernel.check engine subject action resource context).decision =
              true →
            ∃ ctx, engine.readContext schema (actionUid action) context =
                .ok ctx ∧
              ∀ inv ∈ suite,
                inv.covers ⟨subject.ty, actionUid action, resource.ty⟩ =
                    true →
                  (Cedar.isAuthorized ⟨⟨subject.ty, subject.id⟩,
                    actionUid action, ⟨resource.ty, resource.id⟩, ctx⟩
                    kernel.entities inv.guard).allow = true := by
  refine ⟨fun policies inv outcome hok => proven_iff htruth hok, ?_, ?_⟩
  · have hproven : ∀ inv ∈ suite,
        proveInvariantCompiled C schema authority inv = .ok (inv.outcome
          ⟨true, (builtinEnvs.filter inv.covers).length, none⟩) := by
      intro inv hinv
      have hloop : checkEnvs C schema authority inv 0
          (C.requestEnvs schema) = .ok ⟨true,
            0 + ((C.requestEnvs schema).filter inv.covers).length, none⟩ := by
        apply checkEnvs_proven htruth _ hanswers
        · intro env henv hcovers request store hinstance hallow
          exact guarded_of_allow (henvs.mem_iff.mp henv)
            (hadmits env request store hinstance) hallow hinv hcovers
        · intro env henv _
          have hbuiltin := henvs.mem_iff.mp henv
          exact ⟨hcompiles _ List.mem_cons_self env hbuiltin,
            hcompiles _ (List.mem_cons_of_mem _ (List.mem_map_of_mem hinv))
              env hbuiltin⟩
      have hcount : ((C.requestEnvs schema).filter inv.covers).length =
          (builtinEnvs.filter inv.covers).length :=
        (henvs.filter _).length_eq
      rw [Nat.zero_add, hcount] at hloop
      rw [proveInvariantCompiled, hloop]
      simp only [bind, Except.bind, if_neg (covered_ne_zero hinv)]
      rfl
    exact mapM_of_forall hproven
  · intro entities kernel hnew subject action resource context hallow
    exact guarded_of_check hcedar hnew hallow

end Proven

/-! A compiler that is asked for what it says. -/

open Classical in
noncomputable def idealCompiler :
    SymCompiler Unit (RequestEnv × List Policy) where
  requestEnvs _ := builtinEnvs
  compile policies env _ := .ok (env, policies)
  checkImplies policies guard :=
    .ok (decide (Implies Instance policies.1 policies.2 guard.2))
  counterexample _ _ := .ok none

open Classical in
theorem ideal_truthful : idealCompiler.Truthful () Instance := by
  intro policies guard env compiled compiledGuard verdict hcompiled hguard
    hverdict
  cases hcompiled
  cases hguard
  rw [← Except.ok.inj hverdict, decide_eq_true_iff]

theorem suite_proven_ideal :
    proveAll idealCompiler () authority = .ok (suite.map fun inv =>
        inv.outcome ⟨true, (builtinEnvs.filter inv.covers).length, none⟩) ∧
      ∃ (kernel : Kernel Unit (List Policy) Cedar.Entities)
        (ctx : Cedar.Attrs), ∀ inv ∈ suite,
          inv.covers ⟨"Principal", actionUid "Read", "Resource"⟩ = true →
            (Cedar.isAuthorized ⟨⟨"Principal", "bot"⟩, actionUid "Read",
              ⟨"Resource", "acct"⟩, ctx⟩ kernel.entities
              inv.guard).allow = true := by
  rcases Option.map_eq_some_iff.mp sample_allows with
    ⟨kernel, hkernel, hallow⟩
  have hnew : Kernel.new (declaredEngine sampleFloats) sampleModel =
      .ok kernel := toOption_eq_some.mp hkernel
  rcases suite_proven idealCompiler () Instance (fun _ _ _ => id)
    (List.Perm.refl _) ideal_truthful (fun _ _ _ _ => ⟨_, rfl⟩)
    (fun _ _ => ⟨_, rfl⟩) (declaredEngine sampleFloats)
    (declaredEngine_reads sampleFloats) with ⟨_, hproven, henforced⟩
  rcases henforced _ kernel hnew _ _ _ _ hallow with ⟨ctx, _, hguards⟩
  exact ⟨hproven, kernel, ctx, hguards⟩

end Decern.ProofSuite
