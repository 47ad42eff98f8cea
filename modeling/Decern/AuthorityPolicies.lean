import Decern.AuthorityKernel
import Decern.MissionBinding
import Mathlib.Tactic

/-!
# The built-in policies

The policies and the declared attributes a model has unless it brings its own,
and what an Allow under them means: authority that is bounded by every
principal it was delegated from.
-/

namespace Decern

open Serde (Value Map)
open Decern.Graph (PrincipalRec ResourceRec)
open Cedar (Expr Policy)

namespace Policies

def principal : Expr := .var .principal
def resource : Expr := .var .resource
def context : Expr := .var .context

def actionUid (name : String) : Cedar.EntityUid := ⟨"Action", name⟩

def sameTenant : Expr :=
  .eq (.getAttr principal "tenant") (.getAttr resource "tenant")

def inWindow : Expr :=
  .lessEq (.getAttr context "now") (.getAttr principal "expiry")

def inScope (scope : String) : Expr :=
  .contains (.getAttr principal "scopes") (.lit (.string scope))

def ownerOrDelegate : Expr :=
  .or (.eq (.getAttr resource "owner") principal)
    (.contains (.getAttr principal "ancestors") (.getAttr resource "owner"))

/-- `context has flag && context.flag == true`. -/
def flagged (flag : String) : List Expr :=
  [.hasAttr context flag,
    .eq (.getAttr context flag) (.lit (.bool true))]

/-! ## Permits -/

def pRead : Policy where
  id := "P-read"
  effect := .permit
  action := some (actionUid "Read")
  clauses := [.when (.allOf sameTenant
    [inWindow, inScope "read", ownerOrDelegate])]

def pMove : Policy where
  id := "P-move"
  effect := .permit
  action := some (actionUid "MoveMoney")
  clauses := [.when (.allOf sameTenant (flagged "human_approved" ++
    [inWindow, inScope "move_money", ownerOrDelegate]))]

def pPii : Policy where
  id := "P-pii"
  effect := .permit
  action := some (actionUid "AccessPII")
  clauses := [.when (.allOf sameTenant
    [inWindow, inScope "pii:read", ownerOrDelegate])]

def pRebac : Policy where
  id := "P-rebac"
  effect := .permit
  action := some (actionUid "Read")
  clauses := [.when (.allOf sameTenant
    [inWindow, inScope "read", .hasAttr resource "viewers",
      .contains (.getAttr resource "viewers") principal])]

/-! ## Forbids -/

def fRevoked : Policy where
  id := "F-revoked"
  effect := .forbid
  action := none
  clauses := [.when (.getAttr principal "revoked")]

/-- What a resource is labeled with, its accessor must hold. -/
def labeled (label held : String) : Expr :=
  .and (.hasAttr resource label)
    (.not (.and (.hasAttr principal held)
      (.contains (.getAttr principal held) (.getAttr resource label))))

def fResidency : Policy where
  id := "F-residency"
  effect := .forbid
  action := none
  clauses := [.when (labeled "residency" "jurisdictions")]

def fRole : Policy where
  id := "F-role"
  effect := .forbid
  action := none
  clauses := [.when (labeled "required_role" "roles")]

def fTenant : Policy where
  id := "F-tenant"
  effect := .forbid
  action := none
  clauses := [.when
    (.ne (.getAttr principal "tenant") (.getAttr resource "tenant"))]

def fDecay : Policy where
  id := "F-decay"
  effect := .forbid
  action := none
  clauses := [.when
    (.greater (.getAttr context "now") (.getAttr principal "expiry"))]

def fMoney : Policy where
  id := "F-money"
  effect := .forbid
  action := some (actionUid "MoveMoney")
  clauses := [.unless (.and (.hasAttr context "human_approved")
    (.eq (.getAttr context "human_approved") (.lit (.bool true))))]

def fConsent : Policy where
  id := "F-consent"
  effect := .forbid
  action := none
  clauses := [
    .when (.allOf (.hasAttr resource "sensitivity")
      [.eq (.getAttr resource "sensitivity") (.lit (.string "pii")),
        .ne (.getAttr resource "owner") principal]),
    .unless (.and (.hasAttr context "consent")
      (.eq (.getAttr context "consent") (.lit (.bool true))))]

def authority : List Policy :=
  [pRead, pMove, pPii, pRebac, fRevoked, fResidency, fRole, fTenant, fDecay,
    fMoney, fConsent]

end Policies

/-! ## Declared attributes -/

inductive AttrType where
  | string
  | long
  | bool
  | entity (ty : String)
  | stringSet
  | entitySet (ty : String)

structure AttrDecl where
  name : String
  ty : AttrType
  optional : Bool := false

/-- The attributes the schema declares of an entity type. -/
def declaredAttrs : String → List AttrDecl
  | "Organization" =>
      [⟨"tenant", .string, false⟩, ⟨"parent", .entity "Organization", true⟩]
  | "Principal" =>
      [⟨"kind", .string, false⟩, ⟨"tenant", .string, false⟩,
        ⟨"org", .entity "Organization", true⟩, ⟨"expiry", .long, false⟩,
        ⟨"scopes", .stringSet, false⟩, ⟨"roles", .stringSet, true⟩,
        ⟨"jurisdictions", .stringSet, true⟩,
        ⟨"delegator", .entity "Principal", true⟩,
        ⟨"ancestors", .entitySet "Principal", false⟩,
        ⟨"revoked", .bool, false⟩]
  | "Resource" =>
      [⟨"owner", .entity "Principal", false⟩, ⟨"tenant", .string, false⟩,
        ⟨"org", .entity "Organization", true⟩,
        ⟨"sensitivity", .string, true⟩, ⟨"residency", .string, true⟩,
        ⟨"required_role", .string, true⟩,
        ⟨"viewers", .entitySet "Principal", true⟩]
  | _ => []

/-- The context an action declares. -/
def declaredContext : String → List AttrDecl
  | "Read" => [⟨"now", .long, false⟩, ⟨"consent", .bool, true⟩]
  | "MoveMoney" =>
      [⟨"now", .long, false⟩, ⟨"human_approved", .bool, true⟩,
        ⟨"consent", .bool, true⟩]
  | "AccessPII" => [⟨"now", .long, false⟩, ⟨"consent", .bool, true⟩]
  | _ => []

/-- An attribute's value, as its declared type reads it. -/
def AttrType.read : AttrType → Value → Option Cedar.Datum
  | .string, value => value.asStr.map fun text => .prim (.string text)
  | .long, value => value.asI64.map fun long => .prim (.long long)
  | .bool, value => value.asBool.map fun flag => .prim (.bool flag)
  | .entity ty, value =>
      match Graph.entityRef "" ty value with
      | .ok id => some (.prim (.entity ⟨ty, id⟩))
      | .error _ => none
  | .stringSet, value =>
      (value.asArray.bind fun items => items.mapM Value.asStr).map
        fun texts => .set (texts.map Cedar.Prim.string)
  | .entitySet ty, value =>
      (value.asArray.bind fun items =>
        (items.mapM (Graph.entityRef "" ty)).toOption).map
        fun ids => .set (ids.map fun id => Cedar.Prim.entity ⟨ty, id⟩)

/-- The members conform to the declarations and read as the attributes. -/
def Conforms (decls : List AttrDecl) (members : Map) (attrs : Cedar.Attrs) :
    Prop :=
  ∀ decl ∈ decls,
    attrs.lookup decl.name = (members.get decl.name).bind decl.ty.read ∧
    (∀ value, members.get decl.name = some value →
      (decl.ty.read value).isSome) ∧
    (decl.optional = false → (members.get decl.name).isSome)

/-- What the engine is taken to do under the built-in schema: types are read
as they are written, entities and contexts by their declarations, requests are
of a principal for a resource, and its authorizer is Cedar's. -/
structure Engine.ReadsAuthority {S : Type}
    (engine : Engine S (List Policy) Cedar.Entities Cedar.Attrs)
    (schema : S) : Prop where
  typeName : ∀ ty name, engine.typeName ty = .ok name → name = ty
  entities : ∀ list store,
    engine.readEntities schema (.array list) = .ok store →
    (∀ entity ∈ list, ∃ members attrs,
      Graph.attrsOf entity = some members ∧
      store ⟨(Graph.uidOf entity).1, (Graph.uidOf entity).2⟩ = some attrs ∧
      Conforms (declaredAttrs (Graph.uidOf entity).1) members attrs) ∧
    ∀ uid attrs, store uid = some attrs → uid.ty ≠ "Action" →
      ∃ entity ∈ list, Graph.uidOf entity = (uid.ty, uid.id)
  context : ∀ action json ctx,
    engine.readContext schema (Policies.actionUid action) json = .ok ctx →
    ∃ members, json = .object members ∧
      Conforms (declaredContext action) members ctx
  request : ∀ principal action resource ctx,
    engine.validateRequest schema principal action resource ctx = .ok () →
    principal.ty = "Principal" ∧ resource.ty = "Resource"
  authorizer : ∀ principal action resource ctx policies store,
    (engine.isAuthorized principal action resource ctx policies
      store).decision =
    (Cedar.isAuthorized ⟨principal, action, resource, ctx⟩ store
      policies).allow

/-! ## The store against the directory -/

section Reading

variable {members : Map} {attrs : Cedar.Attrs} {decls : List AttrDecl}
  {name : String}

theorem entityRef_relabel (label' : String) {label expected : String}
    {value : Value} {id : String}
    (href : Graph.entityRef label expected value = .ok id) :
    Graph.entityRef label' expected value = .ok id := by
  unfold Graph.entityRef at href ⊢
  dsimp only at href ⊢
  split at href
  case h_1 =>
    split_ifs at href ⊢
    exact href
  case h_2 => cases href

theorem Conforms.string (hconforms : Conforms decls members attrs)
    {optional : Bool} (hdecl : ⟨name, .string, optional⟩ ∈ decls) :
    attrs.lookup name = (Graph.attrStr members name).map
        fun text => .prim (.string text) := by
  obtain ⟨hlookup, -, -⟩ := hconforms _ hdecl
  rw [hlookup, Graph.attrStr]
  cases members.get name <;> rfl

theorem Conforms.string_required (hconforms : Conforms decls members attrs)
    (hdecl : ⟨name, .string, false⟩ ∈ decls) :
    (Graph.attrStr members name).isSome := by
  obtain ⟨_, hreads, hpresent⟩ := hconforms _ hdecl
  obtain ⟨value, hvalue⟩ := Option.isSome_iff_exists.mp (hpresent rfl)
  have hread := hreads value hvalue
  rw [Graph.attrStr, hvalue, Option.bind_some]
  simpa [AttrType.read] using hread

theorem Conforms.long (hconforms : Conforms decls members attrs)
    (hdecl : ⟨name, .long, false⟩ ∈ decls) :
    ∃ long, (members.get name).bind Value.asI64 = some long ∧
      attrs.lookup name = some (.prim (.long long)) := by
  obtain ⟨hlookup, hreads, hpresent⟩ := hconforms _ hdecl
  obtain ⟨value, hvalue⟩ := Option.isSome_iff_exists.mp (hpresent rfl)
  have hread := hreads value hvalue
  simp only [AttrType.read, Option.isSome_map] at hread
  obtain ⟨long, hlong⟩ := Option.isSome_iff_exists.mp hread
  refine ⟨long, by simp [hvalue, hlong], ?_⟩
  simp [hlookup, hvalue, AttrType.read, hlong]

theorem Conforms.bool (hconforms : Conforms decls members attrs)
    {optional : Bool} (hdecl : ⟨name, .bool, optional⟩ ∈ decls) :
    attrs.lookup name = ((members.get name).bind Value.asBool).map
        fun flag => .prim (.bool flag) := by
  obtain ⟨hlookup, -, -⟩ := hconforms _ hdecl
  rw [hlookup]
  cases members.get name <;> rfl

theorem filterMap_of_mapM {α β : Type} {f : α → Option β} {items : List α}
    {values : List β} (hmap : items.mapM f = some values) :
    items.filterMap f = values := by
  induction items generalizing values with
  | nil => simpa using hmap
  | cons item rest ih =>
      rw [List.mapM_cons] at hmap
      cases hitem : f item with
      | none => simp [hitem] at hmap
      | some value =>
          cases hrest : rest.mapM f with
          | none => simp [hitem, hrest] at hmap
          | some others =>
              have hvalues : value :: others = values := by
                simpa [hitem, hrest] using hmap
              rw [List.filterMap_cons_some hitem, ih hrest, hvalues]

theorem Conforms.stringSet (hconforms : Conforms decls members attrs)
    {optional : Bool} (hdecl : ⟨name, .stringSet, optional⟩ ∈ decls) :
    (members.get name = none ∧ attrs.lookup name = none ∧
        Graph.attrSet members name = ∅) ∨
      ∃ texts : List String,
        attrs.lookup name = some (.set (texts.map Cedar.Prim.string)) ∧
          Graph.attrSet members name = texts.toFinset := by
  obtain ⟨hlookup, hreads, _⟩ := hconforms _ hdecl
  cases hvalue : members.get name with
  | none => exact Or.inl ⟨rfl, by simp [hlookup, hvalue],
      by simp [Graph.attrSet, hvalue]⟩
  | some value =>
      right
      have hread := hreads value hvalue
      simp only [AttrType.read, Option.isSome_map] at hread
      obtain ⟨texts, htexts⟩ := Option.isSome_iff_exists.mp hread
      obtain ⟨items, hitems, hmap⟩ := Option.bind_eq_some_iff.mp htexts
      refine ⟨texts, ?_, ?_⟩
      · rw [hlookup, hvalue, Option.bind_some]
        simp only [AttrType.read, hitems, Option.bind_some, hmap,
          Option.map_some]
      · simp [Graph.attrSet, hvalue, hitems, filterMap_of_mapM hmap]

theorem mapM_entityRef_relabel (label' : String) {label expected : String}
    {items : List Value} {ids : List String}
    (hmap : items.mapM (Graph.entityRef label expected) = .ok ids) :
    items.mapM (Graph.entityRef label' expected) = .ok ids := by
  induction items generalizing ids with
  | nil => exact hmap
  | cons item rest ih =>
      rw [List.mapM_cons] at hmap ⊢
      obtain ⟨id, hitem, hmap⟩ := Serde.bind_eq_ok.mp hmap
      obtain ⟨others, hrest, hmap⟩ := Serde.bind_eq_ok.mp hmap
      rw [entityRef_relabel label' hitem, ih hrest]
      exact hmap

theorem toOption_eq_some {ε α : Type} {result : Except ε α} {value : α} :
    result.toOption = some value ↔ result = .ok value := by
  cases result <;> simp [Except.toOption]

theorem Conforms.entity (hconforms : Conforms decls members attrs)
    {ty : String} (hdecl : ⟨name, .entity ty, false⟩ ∈ decls) :
    ∃ id, Graph.attrEntityRef members name ty = .ok (some id) ∧
      attrs.lookup name = some (.prim (.entity ⟨ty, id⟩)) := by
  obtain ⟨hlookup, hreads, hpresent⟩ := hconforms _ hdecl
  obtain ⟨value, hvalue⟩ := Option.isSome_iff_exists.mp (hpresent rfl)
  have hread := hreads value hvalue
  cases href : Graph.entityRef "" ty value with
  | error error => simp [AttrType.read, href] at hread
  | ok id =>
      refine ⟨id, ?_, by simp [hlookup, hvalue, AttrType.read, href]⟩
      simp [Graph.attrEntityRef, hvalue,
        entityRef_relabel name href, Except.map]

theorem Conforms.entitySet (hconforms : Conforms decls members attrs)
    {ty : String} {optional : Bool}
    (hdecl : ⟨name, .entitySet ty, optional⟩ ∈ decls) :
    (members.get name = none ∧ attrs.lookup name = none) ∨
      ∃ ids : List String,
        attrs.lookup name =
            some (.set (ids.map fun id => .entity ⟨ty, id⟩)) ∧
          Graph.attrEntitySet members name ty = .ok ids.toFinset := by
  obtain ⟨hlookup, hreads, _⟩ := hconforms _ hdecl
  cases hvalue : members.get name with
  | none => exact Or.inl ⟨rfl, by simp [hlookup, hvalue]⟩
  | some value =>
      right
      have hread := hreads value hvalue
      simp only [AttrType.read, Option.isSome_map] at hread
      obtain ⟨ids, hids⟩ := Option.isSome_iff_exists.mp hread
      obtain ⟨items, hitems, hmap⟩ := Option.bind_eq_some_iff.mp hids
      rw [toOption_eq_some] at hmap
      refine ⟨ids, ?_, ?_⟩
      · rw [hlookup, hvalue, Option.bind_some]
        simp [AttrType.read, hitems, hmap, Except.toOption]
      · cases value with
        | array found =>
            cases hitems
            simp [Graph.attrEntitySet, hvalue,
              mapM_entityRef_relabel name hmap, Except.map]
        | null => cases hitems
        | bool flag => cases hitems
        | number number => cases hitems
        | string text => cases hitems
        | object fields => cases hitems

end Reading

/-! ## Entities of the store -/

section Store

variable {S : Type} {engine : Engine S (List Policy) Cedar.Entities Cedar.Attrs}
  {schema : S}

/-- A principal of the store, against the directory's. -/
structure PrincipalAttrs (dir : Graph.Directory) (id : String)
    (p : PrincipalRec) (attrs : Cedar.Attrs) : Prop where
  tenant : attrs.lookup "tenant" = some (.prim (.string p.tenant))
  expiry : attrs.lookup "expiry" = some (.prim (.long p.expiry))
  scopes : ∃ texts : List String, p.scopes = texts.toFinset ∧
    attrs.lookup "scopes" = some (.set (texts.map Cedar.Prim.string))
  roles : attrs.lookup "roles" = none ∨
    ∃ texts : List String, p.roles = texts.toFinset ∧
      attrs.lookup "roles" = some (.set (texts.map Cedar.Prim.string))
  jurisdictions : attrs.lookup "jurisdictions" = none ∨
    ∃ texts : List String, p.jurisdictions = texts.toFinset ∧
      attrs.lookup "jurisdictions" = some (.set (texts.map Cedar.Prim.string))
  ancestors : attrs.lookup "ancestors" = some (.set
    ((dir.ancestorsOf id).map fun a => .entity ⟨"Principal", a⟩))
  revoked : attrs.lookup "revoked" = some (.prim (.bool (dir.revoked id)))

/-- A resource of the store, against the directory's; the role it requires is
read from its entity alone. -/
structure ResourceAttrs (r : ResourceRec) (members : Map)
    (attrs : Cedar.Attrs) : Prop where
  tenant : attrs.lookup "tenant" = some (.prim (.string r.tenant))
  owner : attrs.lookup "owner" =
    some (.prim (.entity ⟨"Principal", r.owner⟩))
  sensitivity : attrs.lookup "sensitivity" =
    r.sensitivity.map fun text => .prim (.string text)
  residency : attrs.lookup "residency" =
    r.residency.map fun text => .prim (.string text)
  requiredRole : attrs.lookup "required_role" =
    (Graph.attrStr members "required_role").map
      fun text => .prim (.string text)
  viewers : attrs.lookup "viewers" = none ∨
    ∃ ids : List String, r.viewers = ids.toFinset ∧
      attrs.lookup "viewers" =
        some (.set (ids.map fun id => .entity ⟨"Principal", id⟩))

theorem uidOf_withDerived (dir : Graph.Directory) (entity : Value) :
    Graph.uidOf (withDerived dir entity) = Graph.uidOf entity := by
  unfold withDerived
  split
  case h_1 members =>
    split_ifs
    · split
      case h_1 => simp [Graph.uidOf]
      case h_2 => rfl
    · rfl
  case h_2 => rfl

theorem attrsOf_withDerived {dir : Graph.Directory} {entity : Value}
    {members : Map}
    (hattrs : Graph.attrsOf entity = some members) :
    Graph.attrsOf (withDerived dir entity) = some
      (if (Graph.uidOf entity).1 = "Principal" then
        Map.insert (Map.insert members "ancestors" (.array
          ((dir.ancestorsOf (Graph.uidOf entity).2).map principalRef)))
          "revoked" (.bool (dir.revoked (Graph.uidOf entity).2))
      else members) := by
  cases entity with
  | object fields =>
      simp only [withDerived]
      split_ifs with hprincipal
      · rw [hattrs]
        simp [Graph.attrsOf, Value.asObject]
      · exact hattrs
  | null => cases hattrs
  | bool flag => cases hattrs
  | number number => cases hattrs
  | string text => cases hattrs
  | array items => cases hattrs

theorem read_principalRefs (ids : List String) :
    (AttrType.entitySet "Principal").read (.array (ids.map principalRef)) =
      some (.set (ids.map fun id => .entity ⟨"Principal", id⟩)) := by
  have hmap : (ids.map principalRef).mapM (Graph.entityRef "" "Principal") =
      .ok ids := by
    induction ids with
    | nil => rfl
    | cons id rest ih =>
        rw [List.map_cons, List.mapM_cons, ih]
        rfl
  simp [AttrType.read, Value.asArray, hmap, Except.toOption]

theorem attrStr_insert {members : Map} {name inserted : String}
    {value : Value} (hne : name ≠ inserted) :
    Graph.attrStr (Map.insert members inserted value) name =
      Graph.attrStr members name := by
  simp [Graph.attrStr, hne]

theorem attrSet_insert {members : Map} {name inserted : String}
    {value : Value} (hne : name ≠ inserted) :
    Graph.attrSet (Map.insert members inserted value) name =
      Graph.attrSet members name := by
  simp [Graph.attrSet, hne]

theorem principalAttrs_of_conforms {dir : Graph.Directory} {id : String}
    {members : Map} {p : PrincipalRec} {attrs : Cedar.Attrs}
    (hread : Graph.readPrincipal id members = .ok p)
    (hconforms : Conforms (declaredAttrs "Principal")
      (Map.insert (Map.insert members "ancestors"
        (.array ((dir.ancestorsOf id).map principalRef)))
        "revoked" (.bool (dir.revoked id))) attrs) :
    PrincipalAttrs dir id p attrs := by
  obtain ⟨delegator, _, hread⟩ := Serde.bind_eq_ok.mp hread
  obtain ⟨org, _, hread⟩ := Serde.bind_eq_ok.mp hread
  obtain ⟨revoked, _, hread⟩ := Serde.bind_eq_ok.mp hread
  cases hread
  have hdecl : (⟨"tenant", .string, false⟩ : AttrDecl) ∈
      declaredAttrs "Principal" := by simp [declaredAttrs]
  have htenant := hconforms.string hdecl
  have hnamed := hconforms.string_required hdecl
  rw [attrStr_insert (by decide), attrStr_insert (by decide)] at htenant hnamed
  obtain ⟨tenant, hsome⟩ := Option.isSome_iff_exists.mp hnamed
  have hdecl : (⟨"expiry", .long, false⟩ : AttrDecl) ∈
      declaredAttrs "Principal" := by simp [declaredAttrs]
  obtain ⟨expiry, hexpiry, hlong⟩ := hconforms.long hdecl
  have hdecl : (⟨"scopes", .stringSet, false⟩ : AttrDecl) ∈
      declaredAttrs "Principal" := by simp [declaredAttrs]
  have hscopes := hconforms.stringSet hdecl
  have hpresent := (hconforms _ hdecl).2.2 rfl
  have hdecl : (⟨"roles", .stringSet, true⟩ : AttrDecl) ∈
      declaredAttrs "Principal" := by simp [declaredAttrs]
  have hroles := hconforms.stringSet hdecl
  have hdecl : (⟨"jurisdictions", .stringSet, true⟩ : AttrDecl) ∈
      declaredAttrs "Principal" := by simp [declaredAttrs]
  have hclearances := hconforms.stringSet hdecl
  have hancestors := (hconforms ⟨"ancestors", .entitySet "Principal", false⟩
    (by simp [declaredAttrs])).1
  have hdecl : (⟨"revoked", .bool, false⟩ : AttrDecl) ∈
      declaredAttrs "Principal" := by simp [declaredAttrs]
  have hrevoked := hconforms.bool hdecl
  rw [attrSet_insert (by decide), attrSet_insert (by decide)]
    at hscopes hroles hclearances
  constructor
  · simp [htenant, hsome]
  · have hplain : (members.get "expiry").bind Value.asI64 = some expiry := by
      simpa using hexpiry
    simp [hlong, hplain]
  · rcases hscopes with ⟨hnone, _⟩ | ⟨texts, hlookup, hset⟩
    · simp only at hpresent
      rw [hnone] at hpresent
      cases hpresent
    · exact ⟨texts, hset, hlookup⟩
  · rcases hroles with ⟨_, hnone, _⟩ | ⟨texts, hlookup, hset⟩
    · exact Or.inl hnone
    · exact Or.inr ⟨texts, hset, hlookup⟩
  · rcases hclearances with ⟨_, hnone, _⟩ | ⟨texts, hlookup, hset⟩
    · exact Or.inl hnone
    · exact Or.inr ⟨texts, hset, hlookup⟩
  · rw [hancestors]
    simp only [Map.get_insert, reduceIte]
    exact read_principalRefs _
  · rw [hrevoked]
    simp [Value.asBool]

theorem resourceAttrs_of_conforms {id : String} {members : Map}
    {r : ResourceRec} {attrs : Cedar.Attrs}
    (hread : Graph.readResource id members = .ok r)
    (hconforms : Conforms (declaredAttrs "Resource") members attrs) :
    ResourceAttrs r members attrs := by
  obtain ⟨owner, howner, hread⟩ := Serde.bind_eq_ok.mp hread
  obtain ⟨org, _, hread⟩ := Serde.bind_eq_ok.mp hread
  obtain ⟨viewers, hviewers, hread⟩ := Serde.bind_eq_ok.mp hread
  cases hread
  have htenant : (⟨"tenant", .string, false⟩ : AttrDecl) ∈
      declaredAttrs "Resource" := by simp [declaredAttrs]
  have hnamed := hconforms.string_required htenant
  obtain ⟨tenant, hsome⟩ := Option.isSome_iff_exists.mp hnamed
  have hdecl : (⟨"owner", .entity "Principal", false⟩ : AttrDecl) ∈
      declaredAttrs "Resource" := by simp [declaredAttrs]
  obtain ⟨found, hfound, hentity⟩ := hconforms.entity hdecl
  rw [howner, Except.ok.injEq] at hfound
  subst hfound
  constructor
  · simp [hconforms.string htenant, hsome]
  · exact hentity
  · have hdecl : (⟨"sensitivity", .string, true⟩ : AttrDecl) ∈
        declaredAttrs "Resource" := by simp [declaredAttrs]
    exact hconforms.string hdecl
  · have hdecl : (⟨"residency", .string, true⟩ : AttrDecl) ∈
        declaredAttrs "Resource" := by simp [declaredAttrs]
    exact hconforms.string hdecl
  · have hdecl : (⟨"required_role", .string, true⟩ : AttrDecl) ∈
        declaredAttrs "Resource" := by simp [declaredAttrs]
    exact hconforms.string hdecl
  · have hdecl : (⟨"viewers", .entitySet "Principal", true⟩ : AttrDecl) ∈
        declaredAttrs "Resource" := by simp [declaredAttrs]
    rcases hconforms.entitySet hdecl with ⟨_, hnone⟩ | ⟨ids, hlookup, hset⟩
    · exact Or.inl hnone
    · rw [hviewers, Except.ok.injEq] at hset
      exact Or.inr ⟨ids, hset, hlookup⟩

end Store

end Decern
