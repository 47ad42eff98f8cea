import Decern.AuthorityPolicies
import Mathlib.Tactic

/-!
# Reading by the declarations

An engine that reads entities and contexts as the built-in schema declares
them and decides with the authorizer.
-/

namespace Decern

open Serde (Value Map FloatText)
open Cedar (Policy)

/-- The attributes as they are declared, where every one reads. -/
def readAttrs : List AttrDecl → Map → Option Cedar.Attrs
  | [], _ => some []
  | decl :: rest, members =>
      match members.get decl.name with
      | none => if decl.optional then readAttrs rest members else none
      | some value => do
          let datum ← decl.ty.read value
          let attrs ← readAttrs rest members
          return (decl.name, datum) :: attrs

def readEntity (entity : Value) : Option (Cedar.EntityUid × Cedar.Attrs) := do
  let attrs ← Graph.attrsOf entity
  let read ← readAttrs (declaredAttrs (Graph.uidOf entity).1) attrs
  return (⟨(Graph.uidOf entity).1, (Graph.uidOf entity).2⟩, read)

def readStore (list : List Value) : Except String Cedar.Entities :=
  let entries := list.filterMap readEntity
  if list.all (fun entity => (readEntity entity).isSome) ∧
      (entries.map Prod.fst).Nodup then .ok fun uid => entries.lookup uid
  else .error "entities do not conform to the schema"

/-- The contexts the built-in schema declares, action by action. -/
def declaredShapes : StringMap Declared :=
  Std.ExtTreeMap.ofList (["Read", "MoveMoney", "AccessPII"].map fun action =>
    (action, Declared.record ((declaredContext action).map fun decl =>
      (decl.name, .unread))))

/-- The engine of the built-in schema. -/
def declaredEngine (floats : FloatText) :
    Engine Unit (List Policy) Cedar.Entities Cedar.Attrs where
  floats := floats
  contextShape _ := .ok declaredShapes
  validationErrors _ _ := []
  typeName := .ok
  readEntities _ entities :=
    match entities with
    | .array list => readStore list
    | _ => .error "entities must be an array"
  readContext _ action context :=
    match context.asObject.bind (readAttrs (declaredContext action.id)) with
    | some ctx => .ok ctx
    | none => .error "context does not conform to the schema"
  validateRequest _ principal _ resource _ :=
    if principal.ty = "Principal" ∧ resource.ty = "Resource" then .ok ()
    else .error "request does not conform to the schema"
  isAuthorized principal action resource ctx policies store :=
    let response := Cedar.isAuthorized ⟨principal, action, resource, ctx⟩
      store policies
    { decision := response.allow, reasons := response.reasons,
      errors := response.errors.map Prod.fst }

section Reading

variable {decls : List AttrDecl} {members : Map} {attrs : Cedar.Attrs}

theorem readAttrs_names (hread : readAttrs decls members = some attrs) :
    ∀ name, (attrs.lookup name).isSome → name ∈ decls.map AttrDecl.name := by
  induction decls generalizing attrs with
  | nil =>
      cases hread
      simp
  | cons decl rest ih =>
      intro name hname
      rw [readAttrs] at hread
      split at hread
      case h_1 =>
        split_ifs at hread
        exact List.mem_cons_of_mem _ (ih hread name hname)
      case h_2 value hvalue =>
        obtain ⟨datum, hdatum, hread⟩ := Option.bind_eq_some_iff.mp hread
        obtain ⟨others, hothers, hread⟩ := Option.bind_eq_some_iff.mp hread
        cases hread
        by_cases hsame : name = decl.name
        · simp [hsame]
        · rw [List.lookup_cons, beq_false_of_ne hsame] at hname
          exact List.mem_cons_of_mem _ (ih hothers name hname)

theorem conforms_of_readAttrs (hnames : (decls.map AttrDecl.name).Nodup)
    (hread : readAttrs decls members = some attrs) :
    Conforms decls members attrs := by
  induction decls generalizing attrs with
  | nil => simp [Conforms]
  | cons decl rest ih =>
      rw [List.map_cons, List.nodup_cons] at hnames
      obtain ⟨hfresh, hnames⟩ := hnames
      rw [readAttrs] at hread
      split at hread
      case h_1 hnone =>
        split_ifs at hread with hoptional
        intro other hother
        rcases List.mem_cons.mp hother with rfl | hrest
        · refine ⟨?_, by simp [hnone], by simp [hoptional]⟩
          rw [hnone, Option.bind_none]
          by_contra hsome
          exact hfresh (readAttrs_names hread _
            (Option.isSome_iff_ne_none.mpr hsome))
        · exact ih hnames hread other hrest
      case h_2 value hvalue =>
        obtain ⟨datum, hdatum, hread⟩ := Option.bind_eq_some_iff.mp hread
        obtain ⟨others, hothers, hread⟩ := Option.bind_eq_some_iff.mp hread
        cases hread
        intro other hother
        rcases List.mem_cons.mp hother with rfl | hrest
        · refine ⟨by simp [hvalue, hdatum], ?_, by simp [hvalue]⟩
          intro found hfound
          rw [hvalue, Option.some.injEq] at hfound
          rw [← hfound, hdatum]
          rfl
        · have hne : other.name ≠ decl.name := by
            intro hsame
            exact hfresh (hsame ▸ List.mem_map_of_mem hrest)
          rw [List.lookup_cons, beq_false_of_ne hne]
          exact ih hnames hothers other hrest

theorem declaredAttrs_nodup (ty : String) :
    ((declaredAttrs ty).map AttrDecl.name).Nodup := by
  unfold declaredAttrs
  split <;> decide

theorem declaredContext_nodup (action : String) :
    ((declaredContext action).map AttrDecl.name).Nodup := by
  unfold declaredContext
  split <;> decide

theorem readEntity_eq {entity : Value}
    {entry : Cedar.EntityUid × Cedar.Attrs}
    (hread : readEntity entity = some entry) :
    ∃ members, Graph.attrsOf entity = some members ∧
      entry.1 = ⟨(Graph.uidOf entity).1, (Graph.uidOf entity).2⟩ ∧
      Conforms (declaredAttrs (Graph.uidOf entity).1) members entry.2 := by
  obtain ⟨members, hmembers, hread⟩ := Option.bind_eq_some_iff.mp hread
  obtain ⟨attrs, hattrs, hread⟩ := Option.bind_eq_some_iff.mp hread
  cases hread
  exact ⟨members, hmembers, rfl,
    conforms_of_readAttrs (declaredAttrs_nodup _) hattrs⟩

theorem lookup_of_mem_nodup {entries : List (Cedar.EntityUid × Cedar.Attrs)}
    {uid : Cedar.EntityUid} (hnodup : (entries.map Prod.fst).Nodup)
    (hmem : (uid, attrs) ∈ entries) : entries.lookup uid = some attrs := by
  induction entries with
  | nil => cases hmem
  | cons entry rest ih =>
      rw [List.map_cons, List.nodup_cons] at hnodup
      rcases List.mem_cons.mp hmem with rfl | hrest
      · simp
      · have hne : uid ≠ entry.1 := by
          intro hsame
          exact hnodup.1 (hsame ▸ List.mem_map_of_mem hrest)
        rw [List.lookup_cons, beq_false_of_ne hne]
        exact ih hnodup.2 hrest

theorem mem_of_lookup {entries : List (Cedar.EntityUid × Cedar.Attrs)}
    {uid : Cedar.EntityUid} (hlookup : entries.lookup uid = some attrs) :
    (uid, attrs) ∈ entries := by
  induction entries with
  | nil => cases hlookup
  | cons entry rest ih =>
      rw [List.lookup_cons] at hlookup
      split at hlookup
      case h_1 hsame =>
        cases hlookup
        simp [eq_of_beq hsame]
      case h_2 => exact List.mem_cons_of_mem _ (ih hlookup)

end Reading

/-- The engine does what is taken of one under the built-in schema. -/
theorem declaredEngine_reads (floats : FloatText) :
    (declaredEngine floats).ReadsAuthority () where
  typeName ty name hname := (Except.ok.inj hname).symm
  entities list store hstore := by
    simp only [declaredEngine, readStore] at hstore
    split_ifs at hstore with hconforms
    obtain ⟨hall, hnodup⟩ := hconforms
    cases hstore
    constructor
    · intro entity hentity
      have hsome := List.all_eq_true.mp hall entity hentity
      obtain ⟨⟨uid, attrs⟩, hread⟩ := Option.isSome_iff_exists.mp hsome
      obtain ⟨members, hmembers, huid, hread'⟩ := readEntity_eq hread
      refine ⟨members, attrs, hmembers, ?_, hread'⟩
      rw [← huid]
      exact lookup_of_mem_nodup hnodup
        (List.mem_filterMap.mpr ⟨entity, hentity, hread⟩)
    · intro uid attrs hlookup _
      obtain ⟨entity, hentity, hread⟩ :=
        List.mem_filterMap.mp (mem_of_lookup hlookup)
      obtain ⟨_, _, huid, _⟩ := readEntity_eq hread
      simp only at huid
      exact ⟨entity, hentity, by rw [huid]⟩
  context action json ctx hcontext := by
    simp only [declaredEngine, Policies.actionUid] at hcontext
    split at hcontext
    case h_1 read hread =>
      cases hcontext
      obtain ⟨members, hobject, hattrs⟩ := Option.bind_eq_some_iff.mp hread
      refine ⟨members, ?_,
        conforms_of_readAttrs (declaredContext_nodup action) hattrs⟩
      cases json <;> simp_all [Value.asObject]
    case h_2 => cases hcontext
  request principal action resource ctx hrequest := by
    simp only [declaredEngine] at hrequest
    split_ifs at hrequest with htypes
    exact htypes
  authorizer _ _ _ _ _ _ := rfl

end Decern
