import Decern.ContextPruning
import Mathlib.Tactic

/-!
# What pruning removes

A context is pruned member by member, and everything removed is named by its
path.  Here a path is followed through a value and through the shape declared
of it, and the names are compared with the paths.
-/

namespace Serde.Value

/-- What stands at the end of a path of member names. -/
def follow : Value → List String → Option Value
  | value, [] => some value
  | value, key :: rest => (value.get key).bind fun member => member.follow rest

mutual

/-- No object has two members of one name. -/
def Distinct : Value → Prop
  | .array items => DistinctItems items
  | .object members => (members.map Prod.fst).Nodup ∧ DistinctMembers members
  | _ => True

def DistinctItems : List Value → Prop
  | [] => True
  | value :: rest => value.Distinct ∧ DistinctItems rest

def DistinctMembers : List (String × Value) → Prop
  | [] => True
  | (_, value) :: rest => value.Distinct ∧ DistinctMembers rest

end

theorem distinct_of_get {members : Map} {key : String} {value : Value}
    (hdistinct : DistinctMembers members)
    (hvalue : members.get key = some value) : value.Distinct := by
  induction members with
  | nil => cases hvalue
  | cons member rest ih =>
      obtain ⟨name, first⟩ := member
      obtain ⟨hfirst, hrest⟩ := hdistinct
      rw [Map.get_cons] at hvalue
      split at hvalue
      · cases hvalue
        exact hfirst
      · exact ih hrest hvalue

end Serde.Value

namespace Decern.Declared

open Serde (Map Value)
open Serde.Value (Distinct DistinctMembers distinct_of_get)

/-- The shape at the end of a path, where all of it is declared. -/
def follow : Declared → List String → Option Declared
  | shape, [] => some shape
  | shape, key :: rest =>
      (shape.member key).bind fun child => child.follow rest

mutual

/-- No record declares two attributes of one name. -/
def DistinctAttrs : Declared → Prop
  | .record attrs =>
      (attrs.map Prod.fst).Nodup ∧ DistinctChildren attrs
  | .unread => True

def DistinctChildren : List (String × Declared) → Prop
  | [] => True
  | (_, child) :: rest => child.DistinctAttrs ∧ DistinctChildren rest

end

/-- A member's path, as it is named below another. -/
def memberPath (path key : String) : String :=
  if path.isEmpty then key else path ++ "." ++ key

mutual

/-- What is left of a value, and what was removed from it, by path. -/
def pruneNaming : Declared → Value → String → Value × List String
  | .record attrs, .object members, path =>
      let undeclared := (members.map Prod.fst).filter fun key =>
        (attr attrs key).isNone
      let kept := undeclared.foldl Map.remove members
      let (members, dropped) := pruneAttrs attrs kept path
      (.object members, undeclared.map (memberPath path) ++ dropped)
  | _, value, _ => (value, [])

def pruneAttrs : List (String × Declared) → Map → String →
    Map × List String
  | [], members, _ => (members, [])
  | (key, child) :: rest, members, path =>
      match members.get key with
      | some value =>
          let (value, dropped) :=
            child.pruneNaming value (memberPath path key)
          let (members, later) :=
            pruneAttrs rest (members.insert key value) path
          (members, dropped ++ later)
      | none => pruneAttrs rest members path

end

mutual

/-- The paths of what a value loses, in the order they are named. -/
def removed : Declared → Value → List (List String)
  | .record attrs, .object members =>
      ((members.map Prod.fst).filter fun key =>
        (attr attrs key).isNone).map (fun key => [key]) ++
      removedAttrs attrs members
  | _, _ => []

def removedAttrs : List (String × Declared) → Map → List (List String)
  | [], _ => []
  | (key, child) :: rest, members =>
      (match members.get key with
      | some value => (child.removed value).map (key :: ·)
      | none => []) ++ removedAttrs rest members

end

/-- A path that leads to a member, whose parent is declared and which is
not. -/
structure Removed (shape : Declared) (value : Value) (path : List String) :
    Prop where
  found : (value.follow path).isSome
  undeclared : shape.follow path = none
  parent : (shape.follow path.dropLast).isSome

/-! ## Where the pruning goes -/

variable {attrs : List (String × Declared)} {members : Map}

theorem attr_eq_none_of_notMem {key : String}
    (hkey : key ∉ attrs.map Prod.fst) : attr attrs key = none := by
  induction attrs with
  | nil => rfl
  | cons first rest ih =>
      obtain ⟨name, child⟩ := first
      rw [List.map_cons, List.mem_cons, not_or] at hkey
      rw [attr, if_neg hkey.1]
      exact ih hkey.2

theorem get_foldl_remove (gone : List String) (key : String) :
    Map.get (gone.foldl Map.remove members) key =
      if key ∈ gone then none else members.get key := by
  induction gone generalizing members with
  | nil => simp
  | cons first rest ih =>
      rw [List.foldl_cons, ih, Map.get_remove]
      by_cases hrest : key ∈ rest
      · simp [hrest]
      · simp [hrest]

theorem foldl_remove_eq (gone : List String) :
    gone.foldl Map.remove members =
      members.filter fun member => decide (member.1 ∉ gone) := by
  induction gone generalizing members with
  | nil => simp
  | cons first rest ih =>
      rw [List.foldl_cons, ih, Map.remove, List.filter_filter]
      congr 1
      funext member
      simp only [List.mem_cons, not_or, Bool.decide_and]
      rw [Bool.and_comm]
      congr 1
      simp [bne, Bool.beq_eq_decide_eq]

theorem get_insert_ne {key name : String} {value : Value}
    (hne : key ≠ name) : (members.insert name value).get key =
      members.get key := by
  rw [Map.get_insert, if_neg hne]

/-- Only the members that a record declares matter to its attributes. -/
theorem removedAttrs_congr {others : Map}
    (hget : ∀ key, key ∈ attrs.map Prod.fst →
      members.get key = others.get key) :
    removedAttrs attrs members = removedAttrs attrs others := by
  induction attrs with
  | nil => rfl
  | cons first rest ih =>
      obtain ⟨key, child⟩ := first
      have hkey := hget key (by simp)
      have hrest := ih fun name hname => hget name (by simp [hname])
      rw [removedAttrs, removedAttrs, hkey, hrest]

/-- A replaced member, where no two members have one name. -/
theorem insert_eq_map {key : String} {value old : Value}
    (hnodup : (members.map Prod.fst).Nodup)
    (hold : members.get key = some old) :
    members.insert key value = members.map fun member =>
      if member.1 = key then (key, value) else member := by
  induction members with
  | nil => cases hold
  | cons first rest ih =>
      obtain ⟨name, found⟩ := first
      rw [List.map_cons, List.nodup_cons] at hnodup
      rw [Map.insert, List.map_cons]
      by_cases hname : name = key
      · subst hname
        have hrest : rest.map (fun member =>
            if member.1 = name then (name, value) else member) =
              rest.map id := by
          apply List.map_congr_left
          intro member hmember
          apply if_neg
          intro heq
          have hname : member.1 ∈ rest.map Prod.fst :=
            List.mem_map_of_mem hmember
          exact hnodup.1 (heq ▸ hname)
        simp [hrest]
      · rw [Map.get_cons, if_neg (Ne.symm hname)] at hold
        simp [hname, ih hnodup.2 hold]

theorem get_eq_of_mem {member : String × Value}
    (hnodup : (members.map Prod.fst).Nodup) (hmember : member ∈ members) :
    members.get member.1 = some member.2 := by
  induction members with
  | nil => cases hmember
  | cons first rest ih =>
      obtain ⟨name, found⟩ := first
      rw [List.map_cons, List.nodup_cons] at hnodup
      rw [Map.get_cons]
      rcases List.mem_cons.mp hmember with hfirst | hrest
      · subst hfirst
        simp
      · have hname : member.1 ∈ rest.map Prod.fst :=
          List.mem_map_of_mem hrest
        rw [if_neg, ih hnodup.2 hrest]
        intro heq
        exact hnodup.1 (heq ▸ hname)

theorem get_eq_none_iff {key : String} :
    members.get key = none ↔ key ∉ members.map Prod.fst := by
  induction members with
  | nil => simp
  | cons first rest ih =>
      obtain ⟨name, found⟩ := first
      rw [Map.get_cons, List.map_cons, List.mem_cons, not_or]
      by_cases hname : key = name
      · simp [hname]
      · simp [hname, ih]

/-- Induction over a shape with the hypotheses stated by membership. -/
theorem induction {motive : Declared → Prop}
    (record : ∀ attrs, (∀ entry ∈ attrs, motive entry.2) →
      motive (.record attrs))
    (unread : motive .unread) (shape : Declared) : motive shape := by
  refine @Declared.rec motive (fun attrs => ∀ entry ∈ attrs, motive entry.2)
    (fun entry => motive entry.2) record unread ?_ ?_ ?_ shape
  · simp
  · intro head tail hhead htail entry hentry
    rcases List.mem_cons.mp hentry with rfl | hrest
    · exact hhead
    · exact htail entry hrest
  · intro name inner hinner
    exact hinner

theorem mem_of_attr {key : String} {child : Declared}
    (hchild : attr attrs key = some child) : (key, child) ∈ attrs := by
  induction attrs with
  | nil => cases hchild
  | cons first rest ih =>
      obtain ⟨name, found⟩ := first
      rw [attr] at hchild
      split at hchild
      case isTrue hname =>
        cases hchild
        exact hname ▸ List.mem_cons_self
      case isFalse => exact List.mem_cons_of_mem _ (ih hchild)

theorem distinctAttrs_of_mem {entry : String × Declared}
    (hdistinct : DistinctChildren attrs) (hentry : entry ∈ attrs) :
    entry.2.DistinctAttrs := by
  induction attrs with
  | nil => cases hentry
  | cons first rest ih =>
      rcases List.mem_cons.mp hentry with rfl | hrest
      · exact hdistinct.1
      · exact ih hdistinct.2 hrest

theorem distinctAttrs_of_attr {key : String} {child : Declared}
    (hdistinct : DistinctChildren attrs)
    (hchild : attr attrs key = some child) : child.DistinctAttrs := by
  induction attrs with
  | nil => cases hchild
  | cons first rest ih =>
      rw [attr] at hchild
      split at hchild
      · cases hchild
        exact hdistinct.1
      · exact ih hdistinct.2 hchild

/-! ## What the pruning answers -/

/-- A member, pruned where it is declared. -/
def prunedMember (attrs : List (String × Declared))
    (member : String × Value) : String × Value :=
  (member.1, ((attr attrs member.1).map fun child =>
    child.prune member.2).getD member.2)

/-- What a shape's own pruning answers. -/
def NamesWell (shape : Declared) : Prop :=
  ∀ (value : Value) (path : String), shape.DistinctAttrs → value.Distinct →
    shape.pruneNaming value path = (shape.prune value,
      (shape.removed value).map fun keys => keys.foldl memberPath path)

theorem prunedMember_nil : prunedMember [] = id := rfl

/-- The record's own attribute is pruned once, the others after it. -/
theorem map_prunedMember_cons {key : String} {child : Declared}
    {rest : List (String × Declared)} {value : Value}
    (hgone : attr rest key = none) (hmembers : (members.map Prod.fst).Nodup)
    (hvalue : members.get key = some value) :
    (members.insert key (child.prune value)).map (prunedMember rest) =
      members.map (prunedMember ((key, child) :: rest)) := by
  rw [insert_eq_map hmembers hvalue, List.map_map]
  apply List.map_congr_left
  intro member hmember
  rw [Function.comp_apply]
  by_cases hname : member.1 = key
  · have hfound := get_eq_of_mem hmembers hmember
    rw [hname, hvalue, Option.some.injEq] at hfound
    simp [prunedMember, attr, hname, hgone, hfound]
  · simp [prunedMember, attr, hname]

theorem map_prunedMember_of_none {key : String} {child : Declared}
    {rest : List (String × Declared)} (hnone : members.get key = none) :
    members.map (prunedMember rest) =
      members.map (prunedMember ((key, child) :: rest)) := by
  apply List.map_congr_left
  intro member hmember
  have hname : member.1 ∈ members.map Prod.fst := List.mem_map_of_mem hmember
  have hne : key ≠ member.1 := fun heq =>
    get_eq_none_iff.mp hnone (heq ▸ hname)
  simp [prunedMember, attr, hne.symm]

theorem pruneAttrs_eq (path : String)
    (hchildren : ∀ entry ∈ attrs, NamesWell entry.2)
    (hattrs : (attrs.map Prod.fst).Nodup) (hdistinct : DistinctChildren attrs)
    (hmembers : (members.map Prod.fst).Nodup)
    (hvalues : ∀ (key : String) (value : Value), key ∈ attrs.map Prod.fst →
      members.get key = some value → value.Distinct) :
    pruneAttrs attrs members path = (members.map (prunedMember attrs),
      (removedAttrs attrs members).map fun keys =>
        keys.foldl memberPath path) := by
  induction attrs generalizing members with
  | nil => simp [pruneAttrs, removedAttrs, prunedMember_nil]
  | cons first rest ih =>
      obtain ⟨key, child⟩ := first
      rw [List.map_cons, List.nodup_cons] at hattrs
      have hrest := fun entry hentry =>
        hchildren entry (List.mem_cons_of_mem _ hentry)
      rw [pruneAttrs, removedAttrs]
      cases hvalue : members.get key with
      | none =>
          rw [← map_prunedMember_of_none hvalue,
            ih hrest hattrs.2 hdistinct.2 hmembers fun name value hname =>
              hvalues name value (List.mem_cons_of_mem _ hname)]
          simp
      | some value =>
          have hchild := hchildren (key, child) (by simp) value
            (memberPath path key) hdistinct.1 (hvalues key value (by simp)
              hvalue)
          have hothers : ∀ name, name ∈ rest.map Prod.fst →
              (members.insert key (child.prune value)).get name =
                members.get name := by
            intro name hname
            apply get_insert_ne
            intro heq
            exact hattrs.1 (heq ▸ hname)
          have hkeys : ((members.insert key (child.prune value)).map
              Prod.fst).Nodup := by
            have hsame : (members.insert key (child.prune value)).map
                Prod.fst = members.map Prod.fst := by
              rw [insert_eq_map hmembers hvalue, List.map_map]
              apply List.map_congr_left
              intro member _
              by_cases hname : member.1 = key <;> simp [hname]
            rw [hsame]
            exact hmembers
          have hlater := ih hrest hattrs.2 hdistinct.2 hkeys
            fun name other hname hother =>
              hvalues name other (List.mem_cons_of_mem _ hname)
                (hothers name hname ▸ hother)
          simp only [hchild]
          rw [hlater, map_prunedMember_cons
            (attr_eq_none_of_notMem hattrs.1) hmembers hvalue,
            removedAttrs_congr hothers]
          simp [List.map_append, Function.comp_def]

/-- The names of the members that a record does not declare. -/
def undeclaredKeys (attrs : List (String × Declared)) (members : Map) :
    List String :=
  (members.map Prod.fst).filter fun key => (attr attrs key).isNone

def declaredMembers (attrs : List (String × Declared)) (members : Map) : Map :=
  members.filter fun member => (attr attrs member.1).isSome

theorem prune_record_object :
    (Declared.record attrs).prune (.object members) =
      .object ((declaredMembers attrs members).map (prunedMember attrs)) := by
  rw [prune, Value.object.injEq, declaredMembers]
  induction members with
  | nil => rfl
  | cons first rest ih =>
      obtain ⟨key, value⟩ := first
      rw [List.filterMap_cons, List.filter_cons, pruneMember_eq]
      cases hattr : attr attrs key with
      | none => simpa using ih
      | some child => simpa [prunedMember, hattr] using ih

theorem foldl_remove_undeclaredKeys :
    (undeclaredKeys attrs members).foldl Map.remove members =
      declaredMembers attrs members := by
  rw [foldl_remove_eq]
  apply List.filter_congr
  intro member hmember
  have hname : member.1 ∈ members.map Prod.fst := List.mem_map_of_mem hmember
  cases hattr : attr attrs member.1 with
  | none => simp [undeclaredKeys, hattr, hname]
  | some child => simp [undeclaredKeys, hattr]

theorem get_declaredMembers {key : String} (hkey : (attr attrs key).isSome) :
    Map.get (declaredMembers attrs members) key = members.get key := by
  rw [← foldl_remove_undeclaredKeys, get_foldl_remove, if_neg]
  intro hmem
  have hnone := (List.mem_filter.mp hmem).2
  rw [Option.isNone_iff_eq_none] at hnone
  simp [hnone] at hkey

theorem isSome_attr_of_mem {key : String} (hkey : key ∈ attrs.map Prod.fst) :
    (attr attrs key).isSome := by
  induction attrs with
  | nil => cases hkey
  | cons first rest ih =>
      obtain ⟨name, child⟩ := first
      rw [attr]
      split
      · rfl
      · case isFalse hne =>
          rw [List.map_cons, List.mem_cons] at hkey
          exact ih (hkey.resolve_left hne)

/-- The pruning leaves what the shape says, and names every removal. -/
theorem namesWell (shape : Declared) : NamesWell shape := by
  induction shape using Declared.induction with
  | unread =>
      intro value path _ _
      cases value <;> simp [pruneNaming, removed, prune]
  | record attrs ih =>
      intro value path hshape hvalue
      cases value with
      | object members =>
          have hkeys : ((declaredMembers attrs members).map
              Prod.fst).Nodup :=
            hvalue.1.sublist (List.filter_sublist.map Prod.fst)
          have hget : ∀ key, key ∈ attrs.map Prod.fst →
              Map.get (declaredMembers attrs members) key =
                Map.get members key :=
            fun key hkey => get_declaredMembers (isSome_attr_of_mem hkey)
          have hkept := pruneAttrs_eq path ih hshape.1 hshape.2 hkeys
            fun key value hkey hfound =>
              distinct_of_get hvalue.2 (hget key hkey ▸ hfound)
          simp only [pruneNaming, removed]
          rw [← undeclaredKeys, foldl_remove_undeclaredKeys, hkept,
            removedAttrs_congr hget, prune_record_object]
          simp [Function.comp_def]
      | null => rfl
      | bool flag => rfl
      | number number => rfl
      | string text => rfl
      | array items => rfl

theorem keys_map_prunedMember :
    (members.map (prunedMember attrs)).map Prod.fst =
      members.map Prod.fst := by
  simp [Function.comp_def, prunedMember]

theorem distinctMembers_iff :
    DistinctMembers members ↔ ∀ member ∈ members, member.2.Distinct := by
  induction members with
  | nil => simp [Serde.Value.DistinctMembers]
  | cons first rest ih => simp [Serde.Value.DistinctMembers, ih]

/-- What is left of a value has distinct members as the value had. -/
theorem distinct_prune {shape : Declared} {value : Value}
    (hvalue : value.Distinct) : (shape.prune value).Distinct := by
  induction shape using Declared.induction generalizing value with
  | unread =>
      rw [prune_unread]
      exact hvalue
  | record attrs ih =>
      cases value with
      | object members =>
          have hkept : declaredMembers attrs members ⊆ members :=
            List.filter_subset_self _
          rw [prune_record_object]
          constructor
          · rw [keys_map_prunedMember]
            exact hvalue.1.sublist (List.filter_sublist.map Prod.fst)
          · rw [distinctMembers_iff, List.forall_mem_map]
            intro member hmember
            have hmem := distinctMembers_iff.mp hvalue.2 member
              (hkept hmember)
            rw [prunedMember]
            cases hchild : attr attrs member.1 with
            | none => exact hmem
            | some child => exact ih _ (mem_of_attr hchild) hmem
      | null => trivial
      | bool flag => trivial
      | number number => trivial
      | string text => trivial
      | array items => exact hvalue

/-! ## Paths -/

variable {shape : Declared} {value : Value}

/-- A path through what is left leads where the whole path is declared, to
what is left of what stood there. -/
theorem follow_prune (path : List String) :
    (shape.prune value).follow path = (shape.follow path).bind fun child =>
      (value.follow path).map child.prune := by
  induction path generalizing shape value with
  | nil => rfl
  | cons key rest ih =>
      have hget : (shape.prune value).get key =
          (shape.member key).bind fun child =>
            (value.get key).map child.prune := by
        cases shape with
        | unread =>
            rw [prune_unread]
            simp only [Declared.member, Option.bind_some]
            cases value.get key <;> simp
        | record attrs =>
            cases value with
            | object members => exact get_prune attrs members key
            | null => simp [prune, Value.get]
            | bool flag => simp [prune, Value.get]
            | number number => simp [prune, Value.get]
            | string text => simp [prune, Value.get]
            | array items => simp [prune, Value.get]
      rw [Value.follow, hget, Declared.follow, Value.follow]
      cases hchild : shape.member key with
      | none => rfl
      | some child =>
          cases hmember : value.get key with
          | none => simp
          | some member => exact ih

theorem not_removed_nil : ¬ Removed shape value [] := by
  intro hremoved
  cases hremoved.undeclared

theorem removed_cons_iff {key : String} {rest : List String} :
    Removed shape value (key :: rest) ↔
      (rest = [] ∧ shape.member key = none ∧ (value.get key).isSome) ∨
      ∃ child member, shape.member key = some child ∧
        value.get key = some member ∧ Removed child member rest := by
  constructor
  · intro hremoved
    obtain ⟨hfound, hundeclared, hparent⟩ := hremoved
    rw [Value.follow] at hfound
    rw [Declared.follow] at hundeclared
    cases hmember : value.get key with
    | none => simp [hmember] at hfound
    | some member =>
        cases hchild : shape.member key with
        | none =>
            left
            refine ⟨?_, rfl, rfl⟩
            cases rest with
            | nil => rfl
            | cons next rest => simp [Declared.follow, hchild] at hparent
        | some child =>
            right
            rw [hmember] at hfound
            rw [hchild] at hundeclared
            refine ⟨child, member, rfl, rfl, hfound, hundeclared, ?_⟩
            cases rest with
            | nil => rfl
            | cons next rest =>
                simpa [Declared.follow, hchild] using hparent
  · intro hcases
    rcases hcases with ⟨rfl, hchild, hfound⟩ |
      ⟨child, member, hchild, hmember, hremoved⟩
    · refine ⟨?_, ?_, rfl⟩
      · rw [Value.follow]
        cases hmember : value.get key with
        | none => simp [hmember] at hfound
        | some member => rfl
      · rw [Declared.follow, hchild]
        rfl
    · obtain ⟨hfound, hundeclared, hparent⟩ := hremoved
      refine ⟨?_, ?_, ?_⟩
      · rw [Value.follow, hmember]
        exact hfound
      · rw [Declared.follow, hchild]
        exact hundeclared
      · cases rest with
        | nil => rfl
        | cons next rest => simpa [Declared.follow, hchild] using hparent

theorem mem_removedAttrs_iff {path : List String}
    (hattrs : (attrs.map Prod.fst).Nodup) :
    path ∈ removedAttrs attrs members ↔ ∃ key child member rest,
      attr attrs key = some child ∧ members.get key = some member ∧
      rest ∈ child.removed member ∧ path = key :: rest := by
  induction attrs with
  | nil => simp [removedAttrs, attr]
  | cons first others ih =>
      obtain ⟨name, shape⟩ := first
      rw [List.map_cons, List.nodup_cons] at hattrs
      have hgone : attr others name = none := attr_eq_none_of_notMem hattrs.1
      rw [removedAttrs, List.mem_append, ih hattrs.2]
      constructor
      · intro hcases
        rcases hcases with hfirst | ⟨key, child, member, rest, hchild, hrest⟩
        · cases hmember : members.get name with
          | none => simp [hmember] at hfirst
          | some member =>
              rw [hmember] at hfirst
              obtain ⟨rest, hrest, heq⟩ := List.mem_map.mp hfirst
              exact ⟨name, shape, member, rest, by simp [attr], hmember,
                hrest, heq.symm⟩
        · refine ⟨key, child, member, rest, ?_, hrest⟩
          rw [attr, if_neg, hchild]
          intro heq
          rw [heq, hgone] at hchild
          cases hchild
      · intro hexists
        obtain ⟨key, child, member, rest, hchild, hmember, hrest, heq⟩ :=
          hexists
        rw [attr] at hchild
        split at hchild
        case isTrue hname =>
          left
          cases hchild
          rw [← hname, hmember]
          exact List.mem_map.mpr ⟨rest, hrest, by rw [heq, hname]⟩
        case isFalse =>
          exact Or.inr ⟨key, child, member, rest, hchild, hmember, hrest, heq⟩

/-- What is named as removed is what the shape makes the value lose. -/
theorem mem_removed_iff {path : List String} (hshape : shape.DistinctAttrs) :
    path ∈ shape.removed value ↔ Removed shape value path := by
  induction path generalizing shape value with
  | nil =>
      have hnil : [] ∉ shape.removed value := by
        cases shape with
        | unread => simp [removed]
        | record attrs =>
            cases value with
            | object members =>
                rw [removed, List.mem_append, mem_removedAttrs_iff hshape.1]
                simp
            | null => simp [removed]
            | bool flag => simp [removed]
            | number number => simp [removed]
            | string text => simp [removed]
            | array items => simp [removed]
      simp [hnil, not_removed_nil]
  | cons key rest ih =>
      rw [removed_cons_iff]
      cases shape with
      | unread =>
          have hunread : Declared.unread.DistinctAttrs := trivial
          have hnone (member : Value) : ¬ Removed .unread member rest := by
            rw [← ih hunread]
            simp [removed]
          simp [removed, Declared.member, hnone]
      | record attrs =>
          cases value with
          | object members =>
              rw [removed, List.mem_append, mem_removedAttrs_iff hshape.1]
              apply or_congr
              · simp only [List.mem_map, List.mem_filter, List.cons.injEq,
                  Option.isNone_iff_eq_none, Value.get_object]
                have hmem : (∃ member ∈ members, member.1 = key) ↔
                    (Map.get members key).isSome := by
                  rw [Option.isSome_iff_ne_none, ne_eq, get_eq_none_iff,
                    not_not, List.mem_map]
                rw [← hmem]
                constructor
                · rintro ⟨name, ⟨hname, hnone⟩, rfl, hrest⟩
                  exact ⟨hrest.symm, hnone, hname⟩
                · rintro ⟨hrest, hnone, hname⟩
                  exact ⟨key, ⟨hname, hnone⟩, rfl, hrest.symm⟩
              · constructor
                · rintro ⟨name, child, member, later, hchild, hmember, hlater,
                    heq⟩
                  obtain ⟨rfl, rfl⟩ := List.cons.inj heq
                  have hdistinct := distinctAttrs_of_attr hshape.2 hchild
                  exact ⟨child, member, hchild, hmember,
                    (ih hdistinct).mp hlater⟩
                · rintro ⟨child, member, hchild, hmember, hremoved⟩
                  have hdistinct := distinctAttrs_of_attr hshape.2 hchild
                  exact ⟨key, child, member, rest, hchild, hmember,
                    (ih hdistinct).mpr hremoved, rfl⟩
          | null => simp [removed, Value.get]
          | bool flag => simp [removed, Value.get]
          | number number => simp [removed, Value.get]
          | string text => simp [removed, Value.get]
          | array items => simp [removed, Value.get]

theorem nodup_map_cons (key : String) {paths : List (List String)}
    (hnodup : paths.Nodup) : (paths.map (key :: ·)).Nodup :=
  hnodup.map fun _ _ heq => (List.cons.inj heq).2

theorem nodup_removedAttrs (hattrs : (attrs.map Prod.fst).Nodup)
    (hchildren : ∀ (key : String) (child : Declared) (member : Value),
      (key, child) ∈ attrs → members.get key = some member →
      (child.removed member).Nodup) :
    (removedAttrs attrs members).Nodup := by
  induction attrs with
  | nil => simp [removedAttrs]
  | cons first rest ih =>
      obtain ⟨key, child⟩ := first
      rw [List.map_cons, List.nodup_cons] at hattrs
      have hrest := ih hattrs.2 fun name child member hmem =>
        hchildren name child member (List.mem_cons_of_mem _ hmem)
      rw [removedAttrs]
      cases hmember : members.get key with
      | none => simpa using hrest
      | some member =>
          refine List.nodup_append'.mpr ⟨nodup_map_cons key
            (hchildren key child member (by simp) hmember), hrest, ?_⟩
          intro path hfirst hlater
          obtain ⟨tail, _, rfl⟩ := List.mem_map.mp hfirst
          obtain ⟨name, shape, _, _, hname, _, _, heq⟩ :=
            (mem_removedAttrs_iff hattrs.2).mp hlater
          cases (List.cons.inj heq).1
          rw [attr_eq_none_of_notMem hattrs.1] at hname
          cases hname

theorem nodup_removed (hshape : shape.DistinctAttrs)
    (hvalue : value.Distinct) : (shape.removed value).Nodup := by
  induction shape using Declared.induction generalizing value with
  | unread => simp [removed]
  | record attrs ih =>
      cases value with
      | object members =>
          rw [removed]
          refine List.nodup_append'.mpr ⟨?_, ?_, ?_⟩
          · exact (hvalue.1.filter _).map fun _ _ heq => (List.cons.inj heq).1
          · apply nodup_removedAttrs hshape.1
            intro key child member hmem hmember
            exact ih (key, child) hmem
              (distinctAttrs_of_mem hshape.2 hmem)
              (distinct_of_get hvalue.2 hmember)
          · intro path hfirst hlater
            obtain ⟨key, hkey, rfl⟩ := List.mem_map.mp hfirst
            obtain ⟨name, child, _, _, hchild, _, _, heq⟩ :=
              (mem_removedAttrs_iff hshape.1).mp hlater
            cases (List.cons.inj heq).1
            have hnone := (List.mem_filter.mp hkey).2
            simp [hchild] at hnone
      | null => simp [removed]
      | bool flag => simp [removed]
      | number number => simp [removed]
      | string text => simp [removed]
      | array items => simp [removed]

end Decern.Declared
