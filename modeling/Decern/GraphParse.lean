import Decern.GraphValidation
import Decern.SerdeRead
import Mathlib.Tactic

/-!
# Parsing the authority graph

The entities of a model, read one by one into a directory; anything that is
not the shape of its type is a violation, and nothing loads with one.
-/

namespace Serde

/-- `Value::as_i64`. -/
def Value.asI64 : Value → Option Int64
  | .number (.posInt value) =>
      if value.toNat < 2 ^ 63 then some (Int64.ofNat value.toNat) else none
  | .number (.negInt value) => some value
  | _ => none

/-- `Value::as_u64`. -/
def Value.asU64 : Value → Option UInt64
  | .number (.posInt value) => some value
  | _ => none

def Value.asArray : Value → Option (List Value)
  | .array items => some items
  | _ => none

def Value.asBool : Value → Option Bool
  | .bool value => some value
  | _ => none

end Serde

namespace Decern.Graph

open Serde (Value Map)

def attrStr (attrs : Map) (name : String) : Option String :=
  (attrs.get name).bind Value.asStr

/-- A set of strings; an absent one is empty. -/
def attrSet (attrs : Map) (name : String) : Finset String :=
  (((attrs.get name).bind Value.asArray).getD []).filterMap
    Value.asStr |>.toFinset

/-- An entity reference, in either of Cedar's two encodings. -/
def entityRef (name expected : String) (value : Value) :
    Except String String :=
  let inner := (value.get "__entity").getD value
  match (inner.get "type").bind Value.asStr,
      (inner.get "id").bind Value.asStr with
  | some ty, some id =>
      if ty = expected then .ok id
      else .error (name ++ ": entity ref has type " ++ ty ++ ", expected " ++
        expected)
  | _, _ =>
      .error (name ++ ": unparseable entity reference (need type+id, " ++
        "explicit or implicit form)")

def attrEntityRef (attrs : Map) (name expected : String) :
    Except String (Option String) :=
  match attrs.get name with
  | none => .ok none
  | some value => (entityRef name expected value).map some

def attrEntitySet (attrs : Map) (name expected : String) :
    Except String (Finset String) :=
  match attrs.get name with
  | none => .ok ∅
  | some (.array items) =>
      (items.mapM (entityRef name expected)).map List.toFinset
  | some _ => .error (name ++ ": expected array of entity refs")

/-- The uid of an entity, as its type and its id. -/
def uidOf (entity : Value) : String × String :=
  let part (name : String) : String :=
    ((((entity.get "uid").bind fun uid => uid.get name).bind
      Value.asStr)).getD ""
  (part "type", part "id")

def attrsOf (entity : Value) : Option Map :=
  (entity.get "attrs").bind Value.asObject

def attrRevoked (attrs : Map) : Except String Bool :=
  match attrs.get "revoked" with
  | none => .ok false
  | some (.bool value) => .ok value
  | some _ => .error "revoked is not a boolean"

def readPrincipal (id : String) (attrs : Map) : Except String PrincipalRec := do
  let delegator ← attrEntityRef attrs "delegator" "Principal"
  let org ← attrEntityRef attrs "org" "Organization"
  let revoked ← attrRevoked attrs
  return {
    id, delegator, org, revoked
    kind := (attrStr attrs "kind").getD ""
    tenant := (attrStr attrs "tenant").getD ""
    expiry := ((attrs.get "expiry").bind Value.asI64).getD (-1)
    scopes := attrSet attrs "scopes"
    roles := attrSet attrs "roles"
    jurisdictions := attrSet attrs "jurisdictions" }

def readResource (id : String) (attrs : Map) : Except String ResourceRec := do
  let owner ← attrEntityRef attrs "owner" "Principal"
  let org ← attrEntityRef attrs "org" "Organization"
  let viewers ← attrEntitySet attrs "viewers" "Principal"
  return {
    id, org, viewers
    owner := owner.getD ""
    tenant := (attrStr attrs "tenant").getD ""
    sensitivity := attrStr attrs "sensitivity"
    residency := attrStr attrs "residency" }

def readOrganization (id : String) (attrs : Map) : Except String OrgRec := do
  let parent ← attrEntityRef attrs "parent" "Organization"
  return { id, parent, tenant := (attrStr attrs "tenant").getD "" }

namespace Directory

def empty : Directory := { principals := ∅ }

def duplicateUid (kind id : String) (already : Bool) : List String :=
  violation already (kind ++ "::" ++ id ++
    ": duplicate uid (validator and engine could disagree on attrs)")

def missing (kind id what : String) (wrong : Bool) : List String :=
  violation wrong (kind ++ "::" ++ id ++ ": " ++ what)

def addPrincipal (dir : Directory) (id : String) (attrs : Map) :
    Directory × List String :=
  match readPrincipal id attrs with
  | .error wrong => (dir, ["Principal::" ++ id ++ ": " ++ wrong])
  | .ok p =>
      ({ dir with principals := dir.principals.insert id p },
        missing "Principal" id "missing tenant" (p.tenant == "") ++
        missing "Principal" id "missing or negative expiry"
          (decide (p.expiry < 0)) ++
        duplicateUid "Principal" id (dir.principals[id]?).isSome)

def addResource (dir : Directory) (id : String) (attrs : Map) :
    Directory × List String :=
  match readResource id attrs with
  | .error wrong => (dir, ["Resource::" ++ id ++ ": " ++ wrong])
  | .ok r =>
      ({ dir with resources := dir.resources.insert id r },
        missing "Resource" id "missing owner" (r.owner == "") ++
        missing "Resource" id "missing tenant" (r.tenant == "") ++
        duplicateUid "Resource" id (dir.resources[id]?).isSome)

def addOrganization (dir : Directory) (id : String) (attrs : Map) :
    Directory × List String :=
  match readOrganization id attrs with
  | .error wrong => (dir, ["Organization::" ++ id ++ ": " ++ wrong])
  | .ok o =>
      ({ dir with orgs := dir.orgs.insert id o },
        missing "Organization" id "missing tenant" (o.tenant == "") ++
        duplicateUid "Organization" id (dir.orgs[id]?).isSome)

/-- One entity, added to the directory or named as a violation. -/
def addEntity (dir : Directory) (index : ℕ) (entity : Value) :
    Directory × List String :=
  let (ty, id) := uidOf entity
  if ty = "" ∨ id = "" then
    (dir, ["entity #" ++ toString index ++ ": missing uid type/id"])
  else
    match attrsOf entity with
    | none => (dir, [ty ++ "::" ++ id ++ ": missing attrs object"])
    | some attrs =>
        match ty with
        | "Principal" => addPrincipal dir id attrs
        | "Resource" => addResource dir id attrs
        | "Organization" => addOrganization dir id attrs
        | other => (dir, ["unknown entity type " ++ other ++ "::" ++ id])

def addEntities (dir : Directory) (violations : List String) :
    List (Value × ℕ) → Directory × List String
  | [] => (dir, violations)
  | (entity, index) :: rest =>
      let (next, found) := dir.addEntity index entity
      addEntities next (violations ++ found) rest

def parse (entities : Value) : Except (List String) Directory :=
  match entities with
  | .array list =>
      match addEntities empty [] list.zipIdx with
      | (dir, []) => .ok dir
      | (_, violations) => .error violations
  | _ => .error ["entities must be a JSON array"]

/-! ## A parsed directory holds its entities -/

/-- The entity is of the kind and the id, and reads as the record. -/
def IsEntity {N : Type} (kind : String) (read : String → Map → Except String N)
    (entity : Value) (id : String) (record : N) : Prop :=
  uidOf entity = (kind, id) ∧
    ∃ attrs, attrsOf entity = some attrs ∧ read id attrs = .ok record

/-- The map holds exactly the records of the entities of its kind. -/
def HoldsKind {N : Type} (kind : String)
    (read : String → Map → Except String N) (map : StringMap N)
    (entities : List Value) : Prop :=
  ∀ (id : String) (record : N), map[id]? = some record ↔
    ∃ entity ∈ entities, IsEntity kind read entity id record

section Kinds

variable {N : Type} {kind : String} {read : String → Map → Except String N}
  {map : StringMap N} {entities : List Value} {entity : Value}

theorem HoldsKind.other (hholds : HoldsKind kind read map entities)
    (hkind : (uidOf entity).1 ≠ kind) :
    HoldsKind kind read map (entities ++ [entity]) := by
  intro id record
  rw [hholds id record]
  constructor
  · rintro ⟨found, hfound, his⟩
    exact ⟨found, List.mem_append_left _ hfound, his⟩
  · rintro ⟨found, hfound, his⟩
    rcases List.mem_append.mp hfound with hbefore | hlast
    · exact ⟨found, hbefore, his⟩
    · rw [List.mem_singleton.mp hlast] at his
      exact absurd (congrArg Prod.fst his.1) hkind

theorem HoldsKind.insert (hholds : HoldsKind kind read map entities)
    {id : String} {record : N} (his : IsEntity kind read entity id record)
    (hfresh : map[id]? = none) :
    HoldsKind kind read (map.insert id record) (entities ++ [entity]) := by
  intro other found
  rw [Std.ExtTreeMap.getElem?_insert]
  by_cases hid : id = other
  · subst hid
    simp only [Std.LawfulEqCmp.compare_eq_iff_eq, if_true, Option.some.injEq]
    constructor
    · intro heq
      exact ⟨entity, by simp, heq ▸ his⟩
    · rintro ⟨source, hsource, hsame⟩
      rcases List.mem_append.mp hsource with hbefore | hlast
      · rw [(hholds id found).mpr ⟨source, hbefore, hsame⟩] at hfresh
        cases hfresh
      · rw [List.mem_singleton.mp hlast] at hsame
        obtain ⟨_, attrs, hattrs, hread⟩ := his
        obtain ⟨_, attrs', hattrs', hread'⟩ := hsame
        rw [hattrs, Option.some.injEq] at hattrs'
        subst hattrs'
        rw [hread] at hread'
        exact Except.ok.inj hread'
  · have hne : compare id other ≠ .eq := by
      simpa using hid
    rw [if_neg hne, hholds other found]
    constructor
    · rintro ⟨source, hsource, hsame⟩
      exact ⟨source, List.mem_append_left _ hsource, hsame⟩
    · rintro ⟨source, hsource, hsame⟩
      rcases List.mem_append.mp hsource with hbefore | hlast
      · exact ⟨source, hbefore, hsame⟩
      · rw [List.mem_singleton.mp hlast] at hsame
        have huid := hsame.1.symm.trans his.1
        exact absurd (congrArg Prod.snd huid).symm hid

end Kinds

/-- The directory holds the entities, each as its kind is read. -/
structure HoldsEntities (dir : Directory) (entities : List Value) : Prop where
  principals : HoldsKind "Principal" readPrincipal dir.principals entities
  resources : HoldsKind "Resource" readResource dir.resources entities
  orgs : HoldsKind "Organization" readOrganization dir.orgs entities
  named : ∀ entity ∈ entities, (uidOf entity).2 ≠ ""
  kinds : ∀ entity ∈ entities, ∃ attrs, attrsOf entity = some attrs ∧
    ((∃ id p, uidOf entity = ("Principal", id) ∧
        readPrincipal id attrs = .ok p) ∨
      (∃ id r, uidOf entity = ("Resource", id) ∧
        readResource id attrs = .ok r) ∨
      ∃ id o, uidOf entity = ("Organization", id) ∧
        readOrganization id attrs = .ok o)
  filled : ∀ (id : String) (p : PrincipalRec),
    dir.principals[id]? = some p → p.tenant ≠ "" ∧ 0 ≤ p.expiry

theorem empty_holds : HoldsEntities empty [] where
  principals id p := by simp [empty]
  resources id r := by simp [empty]
  orgs id o := by simp [empty]
  named := by simp
  kinds := by simp
  filled id p hp := by simp [empty] at hp

theorem isSome_eq_false {α : Type} {value : Option α}
    (hnone : value.isSome = false) : value = none := by
  simpa using hnone

section Adding

variable {dir next : Directory} {entities : List Value} {entity : Value}
  {index : ℕ} {id : String} {attrs : Map}

theorem readPrincipal_id {p : PrincipalRec}
    (hread : readPrincipal id attrs = .ok p) : p.id = id := by
  obtain ⟨delegator, _, hread⟩ := Serde.bind_eq_ok.mp hread
  obtain ⟨org, _, hread⟩ := Serde.bind_eq_ok.mp hread
  obtain ⟨revoked, _, hread⟩ := Serde.bind_eq_ok.mp hread
  rw [← Except.ok.inj hread]

theorem readResource_id {r : ResourceRec}
    (hread : readResource id attrs = .ok r) : r.id = id := by
  obtain ⟨owner, _, hread⟩ := Serde.bind_eq_ok.mp hread
  obtain ⟨org, _, hread⟩ := Serde.bind_eq_ok.mp hread
  obtain ⟨viewers, _, hread⟩ := Serde.bind_eq_ok.mp hread
  rw [← Except.ok.inj hread]

theorem readOrganization_id {o : OrgRec}
    (hread : readOrganization id attrs = .ok o) : o.id = id := by
  obtain ⟨parent, _, hread⟩ := Serde.bind_eq_ok.mp hread
  rw [← Except.ok.inj hread]

theorem addPrincipal_eq
    (hadd : dir.addPrincipal id attrs = (next, [])) :
    ∃ p, readPrincipal id attrs = .ok p ∧ dir.principals[id]? = none ∧
      p.tenant ≠ "" ∧ 0 ≤ p.expiry ∧
      next = { dir with principals := dir.principals.insert id p } := by
  unfold addPrincipal at hadd
  cases hread : readPrincipal id attrs with
  | error wrong => simp [hread] at hadd
  | ok p =>
      simp only [hread, missing, duplicateUid, Prod.mk.injEq,
        List.append_eq_nil_iff, violation_eq_nil] at hadd
      obtain ⟨hnext, ⟨htenant, hexpiry⟩, hfresh⟩ := hadd
      exact ⟨p, rfl, isSome_eq_false hfresh, by simpa using htenant,
        Int64.not_lt.mp (by simpa using hexpiry), hnext.symm⟩

theorem addResource_eq (hadd : dir.addResource id attrs = (next, [])) :
    ∃ r, readResource id attrs = .ok r ∧ dir.resources[id]? = none ∧
      next = { dir with resources := dir.resources.insert id r } := by
  unfold addResource at hadd
  cases hread : readResource id attrs with
  | error wrong => simp [hread] at hadd
  | ok r =>
      simp only [hread, missing, duplicateUid, Prod.mk.injEq,
        List.append_eq_nil_iff, violation_eq_nil] at hadd
      exact ⟨r, rfl, isSome_eq_false hadd.2.2, hadd.1.symm⟩

theorem addOrganization_eq
    (hadd : dir.addOrganization id attrs = (next, [])) :
    ∃ o, readOrganization id attrs = .ok o ∧ dir.orgs[id]? = none ∧
      next = { dir with orgs := dir.orgs.insert id o } := by
  unfold addOrganization at hadd
  cases hread : readOrganization id attrs with
  | error wrong => simp [hread] at hadd
  | ok o =>
      simp only [hread, missing, duplicateUid, Prod.mk.injEq,
        List.append_eq_nil_iff, violation_eq_nil] at hadd
      exact ⟨o, rfl, isSome_eq_false hadd.2.2, hadd.1.symm⟩

/-- An entity added without a violation is one of the three kinds, under an id
of its own. -/
theorem addEntity_cases (hadd : dir.addEntity index entity = (next, [])) :
    ∃ id attrs, attrsOf entity = some attrs ∧ id ≠ "" ∧
      ((uidOf entity = ("Principal", id) ∧
          dir.addPrincipal id attrs = (next, [])) ∨
        (uidOf entity = ("Resource", id) ∧
          dir.addResource id attrs = (next, [])) ∨
        uidOf entity = ("Organization", id) ∧
          dir.addOrganization id attrs = (next, [])) := by
  unfold addEntity at hadd
  generalize huid : uidOf entity = uid at hadd ⊢
  obtain ⟨ty, id⟩ := uid
  simp only at hadd
  split at hadd
  case isTrue => simp at hadd
  case isFalse hnamed =>
    cases hattrs : attrsOf entity with
    | none => simp [hattrs] at hadd
    | some attrs =>
        refine ⟨id, attrs, rfl, fun hid => hnamed (Or.inr hid), ?_⟩
        simp only [hattrs] at hadd
        split at hadd
        case h_1 => exact Or.inl ⟨rfl, hadd⟩
        case h_2 => exact Or.inr (Or.inl ⟨rfl, hadd⟩)
        case h_3 => exact Or.inr (Or.inr ⟨rfl, hadd⟩)
        case h_4 => simp at hadd

theorem HoldsEntities.add (hholds : HoldsEntities dir entities)
    (hadd : dir.addEntity index entity = (next, [])) :
    HoldsEntities next (entities ++ [entity]) := by
  obtain ⟨id, attrs, hattrs, hid, hkind⟩ := addEntity_cases hadd
  have hnamed : ∀ item ∈ entities ++ [entity], (uidOf item).2 ≠ "" := by
    intro item hitem
    rcases List.mem_append.mp hitem with hbefore | hlast
    · exact hholds.named item hbefore
    · rw [List.mem_singleton.mp hlast]
      rcases hkind with ⟨huid, _⟩ | ⟨huid, _⟩ | ⟨huid, _⟩ <;> rwa [huid]
  rcases hkind with ⟨huid, hadd⟩ | ⟨huid, hadd⟩ | ⟨huid, hadd⟩
  · obtain ⟨p, hread, hfresh, htenant, hexpiry, rfl⟩ := addPrincipal_eq hadd
    refine ⟨hholds.principals.insert ⟨huid, attrs, hattrs, hread⟩ hfresh,
      hholds.resources.other (by simp [huid]),
      hholds.orgs.other (by simp [huid]), hnamed, ?_, ?_⟩
    · intro item hitem
      rcases List.mem_append.mp hitem with hbefore | hlast
      · exact hholds.kinds item hbefore
      · rw [List.mem_singleton.mp hlast]
        exact ⟨attrs, hattrs, Or.inl ⟨id, p, huid, hread⟩⟩
    · intro other q hq
      simp only [Std.ExtTreeMap.getElem?_insert] at hq
      split at hq
      case isTrue =>
        cases hq
        exact ⟨htenant, hexpiry⟩
      case isFalse => exact hholds.filled other q hq
  · obtain ⟨r, hread, hfresh, rfl⟩ := addResource_eq hadd
    refine ⟨hholds.principals.other (by simp [huid]),
      hholds.resources.insert ⟨huid, attrs, hattrs, hread⟩ hfresh,
      hholds.orgs.other (by simp [huid]), hnamed, ?_, hholds.filled⟩
    intro item hitem
    rcases List.mem_append.mp hitem with hbefore | hlast
    · exact hholds.kinds item hbefore
    · rw [List.mem_singleton.mp hlast]
      exact ⟨attrs, hattrs, Or.inr (Or.inl ⟨id, r, huid, hread⟩)⟩
  · obtain ⟨o, hread, hfresh, rfl⟩ := addOrganization_eq hadd
    refine ⟨hholds.principals.other (by simp [huid]),
      hholds.resources.other (by simp [huid]),
      hholds.orgs.insert ⟨huid, attrs, hattrs, hread⟩ hfresh, hnamed, ?_,
      hholds.filled⟩
    intro item hitem
    rcases List.mem_append.mp hitem with hbefore | hlast
    · exact hholds.kinds item hbefore
    · rw [List.mem_singleton.mp hlast]
      exact ⟨attrs, hattrs, Or.inr (Or.inr ⟨id, o, huid, hread⟩)⟩

theorem addEntities_cons {violations : List String}
    {rest : List (Value × ℕ)} :
    addEntities dir violations ((entity, index) :: rest) =
      addEntities (dir.addEntity index entity).1
        (violations ++ (dir.addEntity index entity).2) rest := rfl

/-- A violation once found stays. -/
theorem addEntities_violations {violations : List String}
    {rest : List (Value × ℕ)}
    (hadd : addEntities dir violations rest = (next, [])) :
    violations = [] := by
  induction rest generalizing dir violations with
  | nil => exact (Prod.mk.inj hadd).2
  | cons head tail ih =>
      rw [addEntities_cons] at hadd
      exact (List.append_eq_nil_iff.mp (ih hadd)).1

theorem addEntities_holds {rest : List (Value × ℕ)}
    (hholds : HoldsEntities dir entities)
    (hadd : addEntities dir [] rest = (next, [])) :
    HoldsEntities next (entities ++ rest.map Prod.fst) := by
  induction rest generalizing dir entities with
  | nil =>
      rw [addEntities, Prod.mk.injEq] at hadd
      rw [← hadd.1]
      simpa using hholds
  | cons head tail ih =>
      obtain ⟨entity, index⟩ := head
      rw [addEntities_cons] at hadd
      generalize hstep : dir.addEntity index entity = added at hadd
      obtain ⟨step, found⟩ := added
      have hfound : found = [] := addEntities_violations hadd
      subst hfound
      have hrest := ih (hholds.add hstep) hadd
      simpa using hrest

theorem addEntities_append {violations : List String}
    {first second : List (Value × ℕ)} :
    addEntities dir violations (first ++ second) =
      addEntities (addEntities dir violations first).1
        (addEntities dir violations first).2 second := by
  induction first generalizing dir violations with
  | nil => rfl
  | cons head tail ih =>
      rw [List.cons_append, addEntities_cons, ih]
      rfl

end Adding

theorem parse_eq_ok {entities : Value} {dir : Directory}
    (hparse : parse entities = .ok dir) :
    ∃ list, entities = .array list ∧
      addEntities empty [] list.zipIdx = (dir, []) := by
  unfold parse at hparse
  split at hparse
  case h_1 list =>
    refine ⟨list, rfl, ?_⟩
    split at hparse
    case h_1 found hadd =>
      cases hparse
      exact hadd
    case h_2 => cases hparse
  case h_2 => cases hparse

theorem parse_holds {entities : Value} {dir : Directory}
    (hparse : parse entities = .ok dir) :
    ∃ list, entities = .array list ∧ HoldsEntities dir list := by
  obtain ⟨list, hlist, hadd⟩ := parse_eq_ok hparse
  have hholds := addEntities_holds empty_holds hadd
  rw [List.nil_append, List.zipIdx_map_fst] at hholds
  exact ⟨list, hlist, hholds⟩

/-- One entity more, added without a violation, parses to the directory with
it. -/
theorem parse_append {list : List Value} {dir next : Directory}
    {entity : Value} (hparse : parse (.array list) = .ok dir)
    (hadd : dir.addEntity list.length entity = (next, [])) :
    parse (.array (list ++ [entity])) = .ok next := by
  obtain ⟨_, hlist, hbefore⟩ := parse_eq_ok hparse
  cases hlist
  have hall : addEntities empty [] (list ++ [entity]).zipIdx =
      (next, []) := by
    rw [List.zipIdx_append, addEntities_append, hbefore]
    simp [addEntities, hadd]
  simp [parse, hall]

theorem HoldsEntities.keyed {dir : Directory} {entities : List Value}
    (hholds : HoldsEntities dir entities) : dir.Keyed where
  principals id p hp := by
    obtain ⟨_, _, _, _, _, hread⟩ := (hholds.principals id p).mp hp
    exact readPrincipal_id hread
  resources id r hr := by
    obtain ⟨_, _, _, _, _, hread⟩ := (hholds.resources id r).mp hr
    exact readResource_id hread
  orgs id o ho := by
    obtain ⟨_, _, _, _, _, hread⟩ := (hholds.orgs id o).mp ho
    exact readOrganization_id hread

end Directory

end Decern.Graph
