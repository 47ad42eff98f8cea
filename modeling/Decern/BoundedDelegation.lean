import Decern.AuthorityPolicies
import Decern.DeclaredReading
import Decern.SamplePlatform
import Mathlib.Tactic

/-!
# Bounded delegation, end to end

What an Allow under the built-in policies shows of the subject and of every
principal it acts for.
-/

namespace Decern

open Serde (Value Map)
open Decern.Graph (PrincipalRec ResourceRec)
open Cedar (Policy)

/-- The role the entity of a resource requires. -/
def requiredRole (entities : Value) (id : String) : Option String :=
  ((entities.asArray.getD []).find? fun entity =>
    Graph.uidOf entity = ("Resource", id)).bind fun entity =>
      (Graph.attrsOf entity).bind fun attrs =>
        Graph.attrStr attrs "required_role"

/-- What one principal holds towards a resource at a time. -/
structure Entitled (r : ResourceRec) (role : Option String) (scope : String)
    (now : UInt64) (p : PrincipalRec) : Prop where
  tenant : p.tenant = r.tenant
  unexpired : (now.toNat : ℤ) ≤ p.expiry.toInt
  unrevoked : p.revoked = false
  scope : scope ∈ p.scopes
  residency : ∀ label, r.residency = some label → label ∈ p.jurisdictions
  role : ∀ label, role = some label → label ∈ p.roles

/-! ## The store of a loaded model -/

section Stored

variable {S : Type} {engine : Engine S (List Policy) Cedar.Entities Cedar.Attrs}
  {schema : S} {list : List Value} {dir : Graph.Directory}
  {store : Cedar.Entities} {id : String} {attrs : Cedar.Attrs}

variable (hcedar : engine.ReadsAuthority schema)
  (hstore : engine.readEntities schema
    (injectDerived (.array list) dir) = .ok store)
include hcedar hstore

/-- What is stored of an entity of the model, by its declarations. -/
theorem stored_entity {entity : Value} (hentity : entity ∈ list) :
    ∃ members attrs, Graph.attrsOf (withDerived dir entity) = some members ∧
      store ⟨(Graph.uidOf entity).1, (Graph.uidOf entity).2⟩ = some attrs ∧
      Conforms (declaredAttrs (Graph.uidOf entity).1) members attrs := by
  have hmem : withDerived dir entity ∈ list.map (withDerived dir) :=
    List.mem_map_of_mem hentity
  have hread := (hcedar.entities _ _ hstore).1 _ hmem
  rwa [uidOf_withDerived] at hread

/-- Only entities of the model are stored. -/
theorem stored_source {ty : String} (hty : ty ≠ "Action")
    (hattrs : store ⟨ty, id⟩ = some attrs) :
    ∃ entity ∈ list, Graph.uidOf entity = (ty, id) := by
  obtain ⟨entity, hmem, huid⟩ :=
    (hcedar.entities _ _ hstore).2 ⟨ty, id⟩ attrs hattrs hty
  obtain ⟨source, hsource, rfl⟩ := List.mem_map.mp hmem
  rw [uidOf_withDerived] at huid
  exact ⟨source, hsource, huid⟩

variable (hholds : Graph.Directory.HoldsEntities dir list)
include hholds

theorem stored_principal (hattrs : store ⟨"Principal", id⟩ = some attrs) :
    ∃ p : PrincipalRec, dir.principals[id]? = some p ∧
      PrincipalAttrs dir id p attrs := by
  obtain ⟨entity, hentity, huid⟩ :=
    stored_source hcedar hstore (by decide) hattrs
  obtain ⟨members, hmembers, hkind⟩ := hholds.kinds entity hentity
  rw [huid] at hkind
  rcases hkind with ⟨_, p, hsame, hread⟩ | ⟨_, _, hsame, _⟩ | ⟨_, _, hsame, _⟩
  · cases hsame
    have hp := (hholds.principals id p).mpr
      ⟨entity, hentity, huid, members, hmembers, hread⟩
    obtain ⟨derived, stored, hderived, hstored, hconforms⟩ :=
      stored_entity hcedar hstore hentity
    rw [attrsOf_withDerived hmembers, huid] at hderived
    rw [huid, hattrs, Option.some.injEq] at hstored
    rw [huid, ← hstored] at hconforms
    simp only [reduceIte, Option.some.injEq] at hderived
    rw [← hderived] at hconforms
    exact ⟨p, hp, principalAttrs_of_conforms hread hconforms⟩
  · simp at hsame
  · simp at hsame

theorem stored_resource (hattrs : store ⟨"Resource", id⟩ = some attrs) :
    ∃ (r : ResourceRec) (members : Map),
      dir.resources[id]? = some r ∧
      requiredRole (.array list) id =
        Graph.attrStr members "required_role" ∧
      ResourceAttrs r members attrs := by
  obtain ⟨found, hfound, hid⟩ :=
    stored_source hcedar hstore (by decide) hattrs
  have hsome : (list.find? fun entity =>
      Graph.uidOf entity = ("Resource", id)).isSome := by
    rw [List.find?_isSome]
    exact ⟨found, hfound, by simpa using hid⟩
  obtain ⟨entity, hfind⟩ := Option.isSome_iff_exists.mp hsome
  have hentity := List.mem_of_find?_eq_some hfind
  have huid : Graph.uidOf entity = ("Resource", id) := by
    simpa using List.find?_some hfind
  obtain ⟨members, hmembers, hkind⟩ := hholds.kinds entity hentity
  have hrole : requiredRole (.array list) id =
      Graph.attrStr members "required_role" := by
    simp [requiredRole, Value.asArray, hfind, hmembers]
  rw [huid] at hkind
  rcases hkind with ⟨_, _, hsame, _⟩ | ⟨_, r, hsame, hread⟩ | ⟨_, _, hsame, _⟩
  · simp at hsame
  · cases hsame
    have hr := (hholds.resources id r).mpr
      ⟨entity, hentity, huid, members, hmembers, hread⟩
    obtain ⟨derived, stored, hderived, hstored, hconforms⟩ :=
      stored_entity hcedar hstore hentity
    rw [attrsOf_withDerived hmembers, huid] at hderived
    rw [huid, hattrs, Option.some.injEq] at hstored
    rw [huid, ← hstored] at hconforms
    have hplain : members = derived := by simpa using hderived
    rw [← hplain] at hconforms
    exact ⟨r, members, hr, hrole, resourceAttrs_of_conforms hread hconforms⟩
  · simp at hsame

end Stored

/-! ## What the policies say of the directory -/

section Said

open Cedar (evaluate)
open Policies

variable {dir : Graph.Directory} {store : Cedar.Entities}
  {request : Cedar.Request}
  {subject attr : String} {datum : Cedar.Datum} {p : PrincipalRec}
  {r : ResourceRec} {members : Map} {held owned : Cedar.Attrs}

theorem evaluate_principal (hprincipal : store request.principal = some held)
    (hattr : held.lookup attr = some datum) :
    evaluate request store (.getAttr principal attr) = .ok (.datum datum) :=
  Cedar.evaluate_attr rfl hprincipal hattr

theorem evaluate_resource (hresource : store request.resource = some owned)
    (hattr : owned.lookup attr = some datum) :
    evaluate request store (.getAttr resource attr) = .ok (.datum datum) :=
  Cedar.evaluate_attr rfl hresource hattr

theorem evaluate_context (hattr : request.context.lookup attr = some datum) :
    evaluate request store (.getAttr context attr) = .ok (.datum datum) :=
  Cedar.evaluate_context_attr_ok.mpr ⟨datum, hattr, rfl⟩

/-! ### The principal -/

section Principal

variable (hprincipal : store request.principal = some held)
  (hheld : PrincipalAttrs dir subject p held)
include hprincipal hheld

theorem le_expiry_of_inWindow {now : Int64}
    (hnow : request.context.lookup "now" = some (.prim (.long now)))
    (hwindow : Cedar.Holds request store inWindow) : now ≤ p.expiry := by
  obtain ⟨low, high, hlow, hhigh, hle⟩ := hwindow.lessEq
  have hlong : evaluate request store (.getAttr context "now") = _ :=
    evaluate_context hnow
  have hexpiry : evaluate request store (.getAttr principal "expiry") = _ :=
    evaluate_principal hprincipal hheld.expiry
  rw [hlong] at hlow
  rw [hexpiry] at hhigh
  cases hlow
  cases hhigh
  exact hle

theorem mem_scopes_of_inScope {scope : String}
    (hscope : Cedar.Holds request store (inScope scope)) :
    scope ∈ p.scopes := by
  obtain ⟨texts, hset, hlookup⟩ := hheld.scopes
  obtain ⟨items, item, hitems, hitem, hmem⟩ := hscope.contains
  have hscopes : evaluate request store (.getAttr principal "scopes") = _ :=
    evaluate_principal hprincipal hlookup
  rw [hscopes] at hitems
  cases hitems
  cases hitem
  rw [hset, List.mem_toFinset]
  simpa using hmem

theorem not_revoked_of_not_holds
    (hnot : ¬ Cedar.Holds request store (.getAttr principal "revoked")) :
    dir.revoked subject = false := by
  have hrevoked : evaluate request store (.getAttr principal "revoked") = _ :=
    evaluate_principal hprincipal hheld.revoked
  rw [Cedar.Holds, hrevoked] at hnot
  simpa [Cedar.Value.ofBool] using hnot

end Principal

/-! ### The resource -/

theorem owner_of_ownerOrDelegate
    (hprincipal : store ⟨"Principal", subject⟩ = some held)
    (hsubject : request.principal = ⟨"Principal", subject⟩)
    (hheld : PrincipalAttrs dir subject p held)
    (hresource : store request.resource = some owned)
    (howned : ResourceAttrs r members owned)
    (howner : Cedar.Holds request store ownerOrDelegate) :
    r.owner = subject ∨ r.owner ∈ dir.ancestorsOf subject := by
  have hvalue : evaluate request store (.getAttr resource "owner") = _ :=
    evaluate_resource hresource howned.owner
  rcases howner.or with hself | habove
  · obtain ⟨first, second, hfirst, hsecond, hsame⟩ := hself.eq
    rw [hvalue] at hfirst
    cases hfirst
    cases hsecond
    left
    simpa [Cedar.Value.same, Cedar.Var.value, hsubject] using hsame
  · obtain ⟨items, item, hitems, hitem, hmem⟩ := habove.contains
    have hancestors : evaluate request store
        (.getAttr principal "ancestors") = _ :=
      evaluate_principal (by rw [hsubject, hprincipal]) hheld.ancestors
    rw [hancestors] at hitems
    rw [hvalue] at hitem
    cases hitems
    cases hitem
    right
    simpa using hmem

theorem mem_viewers_of_holds
    (hsubject : request.principal = ⟨"Principal", subject⟩)
    (hresource : store request.resource = some owned)
    (howned : ResourceAttrs r members owned)
    (hviewer : Cedar.Holds request store
      (.contains (.getAttr resource "viewers") principal)) :
    subject ∈ r.viewers := by
  obtain ⟨items, item, hitems, hitem, hmem⟩ := hviewer.contains
  have hitem : Cedar.Prim.entity request.principal = item := by
    simpa [evaluate, principal, Cedar.Var.value] using hitem
  rw [← hitem, hsubject] at hmem
  rcases howned.viewers with hnone | ⟨ids, hset, hlookup⟩
  · have hname : Cedar.Var.resource.value request =
        .datum (.prim (.entity request.resource)) := rfl
    obtain ⟨attrs, datum, hattrs, hlookup, -⟩ :=
      (Cedar.evaluate_attr_ok hname).mp hitems
    rw [hresource, Option.some.injEq] at hattrs
    rw [← hattrs, hnone] at hlookup
    cases hlookup
  · have hviewers : evaluate request store (.getAttr resource "viewers") = _ :=
      evaluate_resource hresource hlookup
    rw [hviewers] at hitems
    cases hitems
    rw [hset, List.mem_toFinset]
    simpa using hmem

/-- A label nobody forbade over is held. -/
theorem mem_of_not_labeled {label text : String} {labels : Finset String}
    (hprincipal : store request.principal = some held)
    (hresource : store request.resource = some owned)
    (hlabel : owned.lookup label = some (.prim (.string text)))
    (hlabels : held.lookup attr = none ∨ ∃ texts : List String,
      labels = texts.toFinset ∧
        held.lookup attr = some (.set (texts.map Cedar.Prim.string)))
    (hnot : ¬ Cedar.Holds request store (labeled label attr)) :
    text ∈ labels := by
  by_contra hmissing
  apply hnot
  have hhas : Cedar.Holds request store (.hasAttr resource label) := by
    have hvalue : evaluate request store (.hasAttr resource label) = _ :=
      Cedar.evaluate_has rfl hresource
    rw [Cedar.Holds, hvalue, hlabel]
    rfl
  have hheld : evaluate request store (.hasAttr principal attr) = _ :=
    Cedar.evaluate_has rfl hprincipal
  rw [labeled, Cedar.holds_and]
  refine ⟨hhas, Cedar.holds_not.mpr ?_⟩
  rcases hlabels with hnone | ⟨texts, hset, hlookup⟩
  · apply Cedar.fails_and_left
    rw [Cedar.Fails, hheld, hnone]
    rfl
  · apply Cedar.fails_and
    · rw [Cedar.Holds, hheld, hlookup]
      rfl
    · have hcontains := Cedar.evaluate_contains
        (evaluate_principal hprincipal hlookup)
        (evaluate_resource hresource hlabel)
      rw [Cedar.Fails, hcontains]
      have habsent : Cedar.Prim.string text ∉
          texts.map Cedar.Prim.string := by
        simpa [hset] using hmissing
      rw [decide_eq_false habsent]

/-! ### The context -/

/-- A flag that is a boolean, where there is one, is read without an error. -/
theorem flag_of_not_fails {flag : String} {value : Option Bool}
    (hflag : request.context.lookup flag =
      value.map fun flag => .prim (.bool flag))
    (hnot : ¬ Cedar.Fails request store (.and (.hasAttr context flag)
      (.eq (.getAttr context flag) (.lit (.bool true))))) :
    value = some true := by
  by_contra hother
  apply hnot
  have hhas : evaluate request store (.hasAttr context flag) = _ :=
    Cedar.evaluate_context_has
  cases value with
  | none =>
      apply Cedar.fails_and_left
      rw [Cedar.Fails, hhas, hflag]
      rfl
  | some set =>
      have hfalse : set = false := by simpa using hother
      subst hfalse
      apply Cedar.fails_and
      · rw [Cedar.Holds, hhas, hflag]
        rfl
      · have htrue : evaluate request store (.lit (.bool true)) = _ := rfl
        rw [Cedar.Fails, Cedar.evaluate_eq (evaluate_context hflag) htrue]
        rfl

/-- Personal data of someone else is accessed with consent. -/
theorem consent_of_not_fConsent {value : Option Bool}
    (hsubject : request.principal = ⟨"Principal", subject⟩)
    (hresource : store request.resource = some owned)
    (howned : ResourceAttrs r members owned)
    (hflag : request.context.lookup "consent" =
      value.map fun flag => .prim (.bool flag))
    (hpii : r.sensitivity = some "pii") (howner : r.owner ≠ subject)
    (hnot : ¬ Cedar.Holds request store fConsent.condition) :
    value = some true := by
  apply flag_of_not_fails hflag
  intro hfails
  have hsensitivity : owned.lookup "sensitivity" =
      some (.prim (.string "pii")) := by
    rw [howned.sensitivity, hpii]
    rfl
  have hhas : Cedar.Holds request store (.hasAttr resource "sensitivity") := by
    have hvalue : evaluate request store (.hasAttr resource "sensitivity") =
        _ := Cedar.evaluate_has rfl hresource
    rw [Cedar.Holds, hvalue, hsensitivity]
    rfl
  have hlabeled : Cedar.Holds request store
      (.eq (.getAttr resource "sensitivity") (.lit (.string "pii"))) := by
    have hlabel : evaluate request store (.lit (.string "pii")) = _ := rfl
    rw [Cedar.Holds, Cedar.evaluate_eq
      (evaluate_resource hresource hsensitivity) hlabel]
    rfl
  have hother : Cedar.Holds request store
      (.ne (.getAttr resource "owner") principal) := by
    have hprincipal : evaluate request store principal = _ := rfl
    apply Cedar.holds_not.mpr
    rw [Cedar.Fails, Cedar.evaluate_eq
      (evaluate_resource hresource howned.owner) hprincipal]
    simpa [Cedar.Value.same, Cedar.Value.ofBool, Cedar.Var.value, hsubject]
      using howner
  have hwhen : Cedar.Holds request store (Cedar.Clause.when (.allOf
      (.hasAttr resource "sensitivity")
      [.eq (.getAttr resource "sensitivity") (.lit (.string "pii")),
        .ne (.getAttr resource "owner") principal])).expr :=
    Cedar.holds_allOf.mpr ⟨hhas, by simp [hlabeled, hother]⟩
  have hunless : Cedar.Holds request store (Cedar.Clause.unless (.and
      (.hasAttr context "consent") (.eq (.getAttr context "consent")
        (.lit (.bool true))))).expr := Cedar.holds_not.mpr hfails
  apply hnot
  rw [Cedar.holds_condition]
  refine ⟨Cedar.holds_scope_any rfl, ?_⟩
  intro clause hclause
  simp only [fConsent, List.mem_cons, List.not_mem_nil, or_false] at hclause
  rcases hclause with rfl | rfl
  · exact hwhen
  · exact hunless

/-! ### The policies -/

/-- A forbid of one condition over any request does not hold. -/
theorem not_holds_of_forbid {policy : Policy} {expr : Cedar.Expr}
    (hany : policy.action = none) (hclauses : policy.clauses = [.when expr])
    (hnot : ¬ Cedar.Holds request store policy.condition) :
    ¬ Cedar.Holds request store expr := by
  intro hholds
  apply hnot
  rw [Cedar.holds_condition, hclauses]
  exact ⟨Cedar.holds_scope_any hany, by simpa [Cedar.Clause.expr] using hholds⟩

theorem holds_of_permit {policy : Policy} {uid : Cedar.EntityUid}
    {first : Cedar.Expr} {rest : List Cedar.Expr}
    (haction : policy.action = some uid)
    (hclauses : policy.clauses = [.when (.allOf first rest)])
    (hholds : Cedar.Holds request store policy.condition) :
    request.action = uid ∧ Cedar.Holds request store first ∧
      ∀ expr ∈ rest, Cedar.Holds request store expr := by
  obtain ⟨hscope, hall⟩ := (Cedar.holds_condition policy).mp hholds
  rw [hclauses, List.forall_mem_singleton] at hall
  exact ⟨(Cedar.holds_scope_iff haction).mp hscope, Cedar.holds_allOf.mp hall⟩

/-- What the permits ask of a request between them. -/
structure Permitted (request : Cedar.Request) (store : Cedar.Entities)
    (action scope : String) : Prop where
  named : request.action = actionUid action
  mapped : scopeForAction action = some scope
  tenant : Cedar.Holds request store sameTenant
  window : Cedar.Holds request store inWindow
  scope : Cedar.Holds request store (inScope scope)
  related : Cedar.Holds request store ownerOrDelegate ∨
    action = "Read" ∧ Cedar.Holds request store
      (.contains (.getAttr resource "viewers") principal)

theorem permitted_of_permit
    (hpermit : ∃ policy ∈ authority, policy.effect = .permit ∧
      Cedar.Holds request store policy.condition) :
    ∃ action scope, Permitted request store action scope := by
  obtain ⟨policy, hpolicy, heffect, hholds⟩ := hpermit
  have hpermits : policy ∈
      authority.filter fun policy => policy.effect == .permit := by
    simp [hpolicy, heffect]
  have hfilter : (authority.filter fun policy => policy.effect == .permit) =
      [pRead, pMove, pPii, pRebac] := rfl
  rw [hfilter] at hpermits
  simp only [List.mem_cons, List.not_mem_nil, or_false] at hpermits
  rcases hpermits with rfl | rfl | rfl | rfl
  · obtain ⟨haction, htenant, hall⟩ := holds_of_permit rfl rfl hholds
    exact ⟨"Read", "read", haction, rfl, htenant, hall _ (by simp),
      hall _ (by simp), Or.inl (hall _ (by simp))⟩
  · obtain ⟨haction, htenant, hall⟩ := holds_of_permit rfl rfl hholds
    exact ⟨"MoveMoney", "move_money", haction, rfl, htenant, hall _ (by simp),
      hall _ (by simp), Or.inl (hall _ (by simp))⟩
  · obtain ⟨haction, htenant, hall⟩ := holds_of_permit rfl rfl hholds
    exact ⟨"AccessPII", "pii:read", haction, rfl, htenant, hall _ (by simp),
      hall _ (by simp), Or.inl (hall _ (by simp))⟩
  · obtain ⟨haction, htenant, hall⟩ := holds_of_permit rfl rfl hholds
    exact ⟨"Read", "read", haction, rfl, htenant, hall _ (by simp),
      hall _ (by simp), Or.inr ⟨rfl, hall _ (by simp)⟩⟩

/-- Money moves with a flag that says a human approved it. -/
theorem approved_of_not_fMoney {value : Option Bool}
    (haction : request.action = actionUid "MoveMoney")
    (hflag : request.context.lookup "human_approved" =
      value.map fun flag => .prim (.bool flag))
    (hnot : ¬ Cedar.Holds request store fMoney.condition) :
    value = some true := by
  apply flag_of_not_fails hflag
  intro hfails
  apply hnot
  rw [Cedar.holds_condition]
  refine ⟨(Cedar.holds_scope_iff rfl).mpr haction, ?_⟩
  intro clause hclause
  rw [fMoney, List.mem_singleton] at hclause
  rw [hclause]
  exact Cedar.holds_not.mpr hfails

/-- Both sides of a tenant check are stored. -/
theorem stored_of_sameTenant (hholds : Cedar.Holds request store sameTenant) :
    ∃ held owned, store request.principal = some held ∧
      store request.resource = some owned ∧
      ∃ left right, held.lookup "tenant" = some left ∧
        owned.lookup "tenant" = some right ∧
        (Cedar.Value.datum left).same (.datum right) = true := by
  obtain ⟨first, second, hfirst, hsecond, hsame⟩ := hholds.eq
  obtain ⟨held, left, hheld, hleft, rfl⟩ :=
    (Cedar.evaluate_attr_ok rfl).mp hfirst
  obtain ⟨owned, right, howned, hright, rfl⟩ :=
    (Cedar.evaluate_attr_ok rfl).mp hsecond
  exact ⟨held, owned, hheld, howned, left, right, hleft, hright, hsame⟩

end Said

/-! ## An Allow -/

/-- What is not revoked has nobody revoked above it. -/
theorem unrevoked_of_revoked {dir : Graph.Directory} {id : String}
    (hrevoked : dir.revoked id = false) {a : String}
    (ha : a ∈ id :: dir.ancestorsOf id) {p : PrincipalRec}
    (hp : dir.principals[a]? = some p) : p.revoked = false := by
  simp only [Graph.Directory.revoked, Bool.or_eq_false_iff, List.any_eq_false]
    at hrevoked
  rcases List.mem_cons.mp ha with hself | habove
  · rw [← hself, hp] at hrevoked
    simpa using hrevoked.1
  · have hnot := hrevoked.2 a habove
    rw [hp] at hnot
    simpa using hnot

/-- What an Allow at a time shows of the subject itself. -/
structure Granted (dir : Graph.Directory) (entities : Value)
    (subject : EntityRef) (action : String) (resource : EntityRef)
    (context : Value) (p : PrincipalRec) (r : ResourceRec) (scope : String)
    (now : UInt64) : Prop where
  subjectTy : subject.ty = "Principal"
  resourceTy : resource.ty = "Resource"
  holder : dir.principals[subject.id]? = some p
  target : dir.resources[resource.id]? = some r
  clock : context.get "now" = some (.number (.posInt now))
  mapped : scopeForAction action = some scope
  unrevoked : dir.revoked subject.id = false
  entitled : Entitled r (requiredRole entities resource.id) scope now p
  related : r.owner = subject.id ∨ r.owner ∈ dir.ancestorsOf subject.id ∨
    action = "Read" ∧ subject.id ∈ r.viewers
  consent : r.sensitivity = some "pii" → r.owner ≠ subject.id →
    context.get "consent" = some (.bool true)
  approved : action = "MoveMoney" →
    context.get "human_approved" = some (.bool true)

theorem declared_of_mapped {action scope : String}
    (hmapped : scopeForAction action = some scope) :
    ⟨"now", .long, false⟩ ∈ declaredContext action ∧
      ⟨"consent", .bool, true⟩ ∈ declaredContext action ∧
      (action = "MoveMoney" →
        ⟨"human_approved", .bool, true⟩ ∈ declaredContext action) := by
  unfold scopeForAction at hmapped
  split at hmapped
  · simp [declaredContext]
  · simp [declaredContext]
  · simp [declaredContext]
  · cases hmapped

theorem get_of_asBool {members : Map} {name : String}
    (hflag : (members.get name).bind Value.asBool = some true) :
    members.get name = some (.bool true) := by
  obtain ⟨value, hvalue, hbool⟩ := Option.bind_eq_some_iff.mp hflag
  cases value with
  | bool flag =>
      rw [Value.asBool, Option.some.injEq] at hbool
      rw [hvalue, hbool]
  | null => cases hbool
  | number number => cases hbool
  | string text => cases hbool
  | array items => cases hbool
  | object fields => cases hbool

theorem clock_of_conforms {decls : List AttrDecl} {members : Map}
    {ctx : Cedar.Attrs} {now : UInt64} (hconforms : Conforms decls members ctx)
    (hdecl : ⟨"now", .long, false⟩ ∈ decls)
    (hnow : members.get "now" = some (.number (.posInt now)))
    (hrange : now.toNat < 2 ^ 63) :
    ctx.lookup "now" = some (.prim (.long (Int64.ofNat now.toNat))) := by
  obtain ⟨long, hlong, hlookup⟩ := hconforms.long hdecl
  have hread : Value.asI64 (.number (.posInt now)) =
      some (Int64.ofNat now.toNat) := if_pos hrange
  rw [hnow, Option.bind_some, hread] at hlong
  rw [hlookup, Option.some.inj hlong]

section Allowed

variable {S : Type} {engine : Engine S (List Policy) Cedar.Entities Cedar.Attrs}
  {schema : S} {entities context : Value}
  {kernel : Kernel S (List Policy) Cedar.Entities}
  {subject resource : EntityRef} {action : String}

theorem uid_eq (hcedar : engine.ReadsAuthority schema) {ty id : String}
    {uid : Cedar.EntityUid} (huid : Kernel.uid engine ty id = .ok uid) :
    uid = ⟨ty, id⟩ := by
  unfold Kernel.uid at huid
  cases hname : engine.typeName ty with
  | error error => simp [hname, Except.map] at huid
  | ok name =>
      rw [hname] at huid
      cases huid
      rw [hcedar.typeName ty name hname]

theorem granted_of_allow (hcedar : engine.ReadsAuthority schema)
    (hnew : Kernel.new engine ⟨schema, Policies.authority, entities⟩ =
      .ok kernel)
    (hallow : (kernel.check engine subject action resource context).decision =
      true) :
    ∃ p r scope now, Granted kernel.directory entities subject action resource
      context p r scope now := by
  have hloaded := Kernel.new_eq_ok_iff.mp hnew
  obtain ⟨list, rfl, hholds⟩ := Graph.Directory.parse_holds hloaded.parsed
  obtain ⟨response, _, _, _, ctx, now, hdecision, hasked⟩ :=
    Kernel.asked_of_allow hallow
  obtain rfl := uid_eq hcedar hasked.subjectUid
  obtain rfl := uid_eq hcedar hasked.actionRead
  obtain rfl := uid_eq hcedar hasked.resourceRead
  have hschema : kernel.schema = schema := hloaded.schema
  have hcontext := hasked.contextRead
  have hrequest := hasked.request
  rw [hschema] at hcontext hrequest
  obtain ⟨hsubjectTy, hresourceTy⟩ := hcedar.request _ _ _ _ hrequest
  obtain ⟨subjectTy, subject⟩ := subject
  obtain ⟨resourceTy, resource⟩ := resource
  simp only at hsubjectTy hresourceTy
  subst hsubjectTy hresourceTy
  have hdecides := hcedar.authorizer ⟨"Principal", subject⟩
    ⟨"Action", action⟩ ⟨"Resource", resource⟩ ctx kernel.policies
    kernel.entities
  rw [hasked.answer, hdecides, hloaded.policies,
    Cedar.isAuthorized_allow_iff] at hdecision
  obtain ⟨hpermit, hforbid⟩ := hdecision
  obtain ⟨found, scope, hpermitted⟩ := permitted_of_permit hpermit
  have hnamed : action = found := by
    simpa [Policies.actionUid] using hpermitted.named
  subst hnamed
  obtain ⟨held, owned, hprincipal, hresource, left, right, hleft, hright,
    hsame⟩ := stored_of_sameTenant hpermitted.tenant
  obtain ⟨p, hp, hheld⟩ :=
    stored_principal hcedar hloaded.entities hholds hprincipal
  obtain ⟨r, members, hr, hrole, howned⟩ :=
    stored_resource hcedar hloaded.entities hholds hresource
  obtain ⟨fields, rfl, hconforms⟩ := hcedar.context action _ _ hcontext
  obtain ⟨hnow, hrange⟩ := Kernel.clockOf_eq_ok.mp hasked.clock
  obtain ⟨hclock, hflag, happroval⟩ := declared_of_mapped hpermitted.mapped
  have hwindow := le_expiry_of_inWindow hprincipal hheld
    (clock_of_conforms hconforms hclock hnow hrange) hpermitted.window
  rw [Int64.le_iff_toInt_le, Int64.toInt_ofNat_of_lt hrange] at hwindow
  have hrevoked := not_revoked_of_not_holds hprincipal hheld
    (not_holds_of_forbid rfl rfl
      (hforbid Policies.fRevoked (by simp [Policies.authority]) rfl))
  have htenant : p.tenant = r.tenant := by
    rw [hheld.tenant, Option.some.injEq] at hleft
    rw [howned.tenant, Option.some.injEq] at hright
    rw [← hleft, ← hright] at hsame
    simpa [Cedar.Value.same] using hsame
  have hresidency : ∀ label, r.residency = some label →
      label ∈ p.jurisdictions := by
    intro label hlabel
    refine mem_of_not_labeled hprincipal hresource ?_ hheld.jurisdictions
      (not_holds_of_forbid rfl rfl
        (hforbid Policies.fResidency (by simp [Policies.authority]) rfl))
    rw [howned.residency, hlabel]
    rfl
  have hroles : ∀ label, requiredRole (.array list) resource = some label →
      label ∈ p.roles := by
    intro label hlabel
    refine mem_of_not_labeled hprincipal hresource ?_ hheld.roles
      (not_holds_of_forbid rfl rfl
        (hforbid Policies.fRole (by simp [Policies.authority]) rfl))
    rw [howned.requiredRole, ← hrole, hlabel]
    rfl
  refine ⟨p, r, scope, now, ?_⟩
  exact {
    subjectTy := rfl
    resourceTy := rfl
    holder := hp
    target := hr
    clock := hnow
    mapped := hpermitted.mapped
    unrevoked := hrevoked
    entitled := {
      tenant := htenant
      unexpired := hwindow
      unrevoked := unrevoked_of_revoked hrevoked (List.mem_cons_self ..) hp
      scope := mem_scopes_of_inScope hprincipal hheld hpermitted.scope
      residency := hresidency
      role := hroles }
    related := by
      rcases hpermitted.related with howner | ⟨hread, hviewer⟩
      · rcases owner_of_ownerOrDelegate hprincipal rfl hheld hresource howned
          howner with hself | habove
        · exact Or.inl hself
        · exact Or.inr (Or.inl habove)
      · exact Or.inr (Or.inr
          ⟨hread, mem_viewers_of_holds rfl hresource howned hviewer⟩)
    consent := fun hpii hother => get_of_asBool
      (consent_of_not_fConsent rfl hresource howned (hconforms.bool hflag)
        hpii hother
        (hforbid Policies.fConsent (by simp [Policies.authority]) rfl))
    approved := fun hmoney => get_of_asBool
      (approved_of_not_fMoney (by rw [hmoney]; rfl)
        (hconforms.bool (happroval hmoney))
        (hforbid Policies.fMoney (by simp [Policies.authority]) rfl)) }

/-- Whatever an Allow shows of the subject, it shows of everyone the subject
acts for. -/
theorem allow_bounds_delegation (hcedar : engine.ReadsAuthority schema)
    (hnew : Kernel.new engine ⟨schema, Policies.authority, entities⟩ =
      .ok kernel)
    (hallow : (kernel.check engine subject action resource context).decision =
      true) :
    ∃ p r scope now, Granted kernel.directory entities subject action resource
        context p r scope now ∧
      ∀ a ∈ kernel.directory.ancestorsOf subject.id, ∃ ancestor : PrincipalRec,
        kernel.directory.principals[a]? = some ancestor ∧
          Entitled r (requiredRole entities resource.id) scope now
            ancestor := by
  obtain ⟨p, r, scope, now, hgranted⟩ := granted_of_allow hcedar hnew hallow
  have hloaded := Kernel.new_eq_ok_iff.mp hnew
  obtain ⟨list, rfl, hholds⟩ := Graph.Directory.parse_holds hloaded.parsed
  have hbounded :=
    Graph.Directory.bounded_of_validate hholds.keyed hloaded.valid
  refine ⟨p, r, scope, now, hgranted, ?_⟩
  intro a ha
  obtain ⟨ancestor, hancestor, hwithin⟩ :=
    hbounded.ancestors subject.id p hgranted.holder a ha
  have hentitled := hgranted.entitled
  exact ⟨ancestor, hancestor, {
    tenant := hwithin.tenant.symm.trans hentitled.tenant
    unexpired := hentitled.unexpired.trans
      (Int64.le_iff_toInt_le.mp hwithin.expiry)
    unrevoked := unrevoked_of_revoked hgranted.unrevoked
      (List.mem_cons_of_mem _ ha) hancestor
    scope := hwithin.scopes hentitled.scope
    residency := fun label hlabel =>
      hwithin.jurisdictions (hentitled.residency label hlabel)
    role := fun label hlabel =>
      hwithin.roles (hentitled.role label hlabel) }⟩

end Allowed

/-- A principal under the other's authority, where there is another. -/
def samplePrincipal (id : String) (delegator : Option String) : Value :=
  .object [
    ("uid", .object [("type", .string "Principal"), ("id", .string id)]),
    ("attrs", .object ([("kind", .string "human"), ("tenant", .string "acme"),
      ("expiry", .number (.posInt 900)),
      ("scopes", .array [.string "read", .string "move_money"])] ++
      delegator.toList.map fun above => ("delegator", principalRef above)))]

/-- A customer, an agent that acts for them, a colleague and an account. -/
def sampleEntities : Value := .array [
  samplePrincipal "alice" none,
  samplePrincipal "bot" (some "alice"),
  samplePrincipal "carol" none,
  .object [
    ("uid", .object [("type", .string "Resource"), ("id", .string "acct")]),
    ("attrs", .object [("owner", principalRef "alice"),
      ("tenant", .string "acme")])]]

def sampleModel : Model Unit (List Policy) :=
  ⟨(), Policies.authority, sampleEntities⟩

/-- The sample's clock, early enough. -/
def sampleNow : Value := .object [("now", .number (.posInt 100))]

theorem sample_allows :
    ((Kernel.new (declaredEngine sampleFloats) sampleModel).toOption.map
      fun kernel => (kernel.check (declaredEngine sampleFloats)
        ⟨"Principal", "bot"⟩ "Read" ⟨"Resource", "acct"⟩
        sampleNow).decision) = some true := by
  decide +kernel

theorem allow_bounds_delegation_sample :
    ∃ (kernel : Kernel Unit (List Policy) Cedar.Entities) (p : PrincipalRec)
      (r : ResourceRec) (scope : String) (now : UInt64),
      Granted kernel.directory sampleEntities ⟨"Principal", "bot"⟩ "Read"
        ⟨"Resource", "acct"⟩ sampleNow p r scope now ∧
      ∀ a ∈ kernel.directory.ancestorsOf "bot", ∃ ancestor : PrincipalRec,
        kernel.directory.principals[a]? = some ancestor ∧
          Entitled r (requiredRole sampleEntities "acct") scope now
            ancestor := by
  obtain ⟨kernel, hkernel, hallow⟩ := Option.map_eq_some_iff.mp sample_allows
  have hnew : Kernel.new (declaredEngine sampleFloats) sampleModel =
      .ok kernel := toOption_eq_some.mp hkernel
  exact ⟨kernel, allow_bounds_delegation (declaredEngine_reads sampleFloats)
    hnew hallow⟩

end Decern
