import Decern.AuthorityKernel
import Decern.ContextRemoval
import Mathlib.Tactic

/-!
# Pruning to the union

A search records the context pruned to what any action declares.  A shape
covers another when pruning to it first loses nothing the other keeps; the
union of shapes covers each of them.
-/

namespace Decern.Declared

open Serde (Map Value)
open Serde.Value (Distinct DistinctMembers)

/-- Everything a shape declares, the wider one declares. -/
inductive Covers : Declared → Declared → Prop
  | unread (shape : Declared) : Covers shape .unread
  | record (attrs wide : List (String × Declared)) :
      (∀ (key : String) (child : Declared), attr attrs key = some child →
        ∃ wider, attr wide key = some wider) →
      (∀ (key : String) (child wider : Declared),
        attr attrs key = some child → attr wide key = some wider →
        Covers child wider) →
      Covers (.record attrs) (.record wide)

variable {shape wide : Declared} {attrs others : List (String × Declared)}

theorem attr_insertAttr (key name : String) (child : Declared) :
    attr (insertAttr attrs key child) name =
      if name = key then some child else attr attrs name := by
  induction attrs with
  | nil => simp [insertAttr, attr, eq_comm]
  | cons first rest ih =>
      obtain ⟨found, old⟩ := first
      rw [insertAttr]
      by_cases hfound : found = key
      · subst hfound
        by_cases hname : name = found
        · simp [attr, hname]
        · simp [attr, hname]
      · rw [if_neg hfound, attr, attr, ih]
        by_cases hname : name = found
        · subst hname
          simp [hfound]
        · simp [hname]

theorem Covers.refl (shape : Declared) : Covers shape shape := by
  induction shape using Declared.induction with
  | unread => exact .unread _
  | record attrs ih =>
      apply Covers.record
      · exact fun key child hchild => ⟨child, hchild⟩
      · intro key child wider hchild hwider
        rw [hchild, Option.some.injEq] at hwider
        subst hwider
        exact ih (key, child) (mem_of_attr hchild)

theorem Covers.trans {mid : Declared} (hfirst : Covers shape mid)
    (hsecond : Covers mid wide) : Covers shape wide := by
  induction hsecond generalizing shape with
  | unread => exact .unread _
  | record attrs wide hkeys _ ih =>
      cases hfirst with
      | record narrow _ hnarrow hchildren =>
          apply Covers.record
          · intro key child hchild
            obtain ⟨inner, hinner⟩ := hnarrow key child hchild
            exact hkeys key inner hinner
          · intro key child wider hchild hwider
            obtain ⟨inner, hinner⟩ := hnarrow key child hchild
            exact ih key inner wider hinner hwider
              (hchildren key child inner hchild hinner)

/-- Pruning to a wider shape first loses nothing. -/
theorem Covers.prune_prune (hcovers : Covers shape wide) (value : Value) :
    shape.prune (wide.prune value) = shape.prune value := by
  induction hcovers generalizing value with
  | unread => rw [prune_unread]
  | record attrs wide hkeys _ ih =>
      cases value with
      | object members =>
          rw [prune, prune, prune, List.filterMap_filterMap,
            Value.object.injEq]
          apply List.filterMap_congr
          intro member _
          obtain ⟨key, value⟩ := member
          simp only [pruneMember_eq]
          cases hchild : attr attrs key with
          | none => cases attr wide key <;> simp [hchild]
          | some child =>
              obtain ⟨wider, hwider⟩ := hkeys key child hchild
              simp [hwider, hchild, ih key child wider hchild hwider value]
      | null => rfl
      | bool flag => rfl
      | number number => rfl
      | string text => rfl
      | array items => rfl

/-- Pruning is idempotent. -/
theorem prune_prune (value : Value) :
    shape.prune (shape.prune value) = shape.prune value :=
  (Covers.refl shape).prune_prune value

/-! ## Unions -/

/-- What the union of an attribute's two shapes covers. -/
def mergedAttr (attrs : List (String × Declared)) (key : String)
    (shape : Declared) : Declared :=
  match attr attrs key with
  | some declared => union declared shape
  | none => shape

theorem unionAttrs_cons {key : String} {rest : List (String × Declared)} :
    unionAttrs attrs ((key, shape) :: rest) =
      unionAttrs (insertAttr attrs key (mergedAttr attrs key shape)) rest := by
  cases hattr : attr attrs key with
  | none => simp only [unionAttrs, mergedAttr, hattr]
  | some declared => simp only [unionAttrs, mergedAttr, hattr]

theorem covers_insertAttr {key : String}
    (hmerged : ∀ declared, attr attrs key = some declared →
      Covers declared (mergedAttr attrs key shape)) :
    Covers (.record attrs)
      (.record (insertAttr attrs key (mergedAttr attrs key shape))) := by
  apply Covers.record
  · intro name child hchild
    rw [attr_insertAttr]
    split
    · exact ⟨_, rfl⟩
    · exact ⟨child, hchild⟩
  · intro name child wider hchild hwider
    rw [attr_insertAttr] at hwider
    split at hwider
    case isTrue hname =>
      cases hwider
      exact hmerged child (hname ▸ hchild)
    case isFalse =>
      rw [hchild, Option.some.injEq] at hwider
      exact hwider ▸ Covers.refl child

theorem covers_unionAttrs
    (hunion : ∀ entry ∈ others, ∀ shape,
      Covers shape (union shape entry.2) ∧ Covers entry.2
        (union shape entry.2)) :
    Covers (.record attrs) (.record (unionAttrs attrs others)) ∧
      Covers (.record others) (.record (unionAttrs attrs others)) := by
  induction others generalizing attrs with
  | nil =>
      rw [unionAttrs]
      exact ⟨.refl _, .record _ _ (by simp [attr]) (by simp [attr])⟩
  | cons first rest ih =>
      obtain ⟨key, shape⟩ := first
      have hmerged : ∀ declared, attr attrs key = some declared →
          Covers declared (mergedAttr attrs key shape) := by
        intro declared hdeclared
        rw [mergedAttr, hdeclared]
        exact (hunion (key, shape) (by simp) declared).1
      have hshape : Covers shape (mergedAttr attrs key shape) := by
        rw [mergedAttr]
        cases attr attrs key with
        | none => exact .refl shape
        | some declared => exact (hunion (key, shape) (by simp) declared).2
      obtain ⟨hleft, hright⟩ := @ih (insertAttr attrs key
        (mergedAttr attrs key shape)) fun entry hentry =>
          hunion entry (List.mem_cons_of_mem _ hentry)
      rw [unionAttrs_cons]
      refine ⟨(covers_insertAttr hmerged).trans hleft, ?_⟩
      cases hleft with
      | record _ _ hkeys hchildren =>
          cases hright with
          | record _ _ hkeys' hchildren' =>
              apply Covers.record
              · intro name child hchild
                rw [attr] at hchild
                split at hchild
                case isTrue hname =>
                  exact hkeys name (mergedAttr attrs key shape)
                    (by simp [attr_insertAttr, hname])
                case isFalse => exact hkeys' name child hchild
              · intro name child wider hchild hwider
                rw [attr] at hchild
                split at hchild
                case isTrue hname =>
                  cases hchild
                  exact hshape.trans (hchildren name
                    (mergedAttr attrs key shape) wider
                    (by simp [attr_insertAttr, hname]) hwider)
                case isFalse => exact hchildren' name child wider hchild hwider

/-- The union of two shapes covers both. -/
theorem covers_union (shape other : Declared) :
    Covers shape (union shape other) ∧ Covers other (union shape other) := by
  induction other using Declared.induction generalizing shape with
  | unread => cases shape <;> exact ⟨.unread _, .unread _⟩
  | record others ih =>
      cases shape with
      | unread => exact ⟨.unread _, .unread _⟩
      | record attrs =>
          rw [union]
          exact covers_unionAttrs ih

theorem covers_foldl_union (shapes : List Declared) (start : Declared) :
    Covers start (shapes.foldl union start) ∧
      ∀ shape ∈ shapes, Covers shape (shapes.foldl union start) := by
  induction shapes generalizing start with
  | nil => exact ⟨.refl start, by simp⟩
  | cons first rest ih =>
      obtain ⟨hstart, hrest⟩ := ih (union start first)
      obtain ⟨hleft, hright⟩ := covers_union start first
      rw [List.foldl_cons, List.forall_mem_cons]
      exact ⟨hleft.trans hstart, hright.trans hstart, hrest⟩

theorem keys_insertAttr_of_mem {key : String} (hkey : key ∈ attrs.map Prod.fst) :
    (insertAttr attrs key shape).map Prod.fst = attrs.map Prod.fst := by
  induction attrs with
  | nil => cases hkey
  | cons first rest ih =>
      obtain ⟨name, old⟩ := first
      rw [insertAttr]
      split
      case isTrue hname => simp [hname]
      case isFalse hname =>
        rw [List.map_cons, List.mem_cons] at hkey
        have hrest := ih (hkey.resolve_left (Ne.symm hname))
        simp [hrest]

theorem insertAttr_of_notMem {key : String}
    (hkey : key ∉ attrs.map Prod.fst) :
    insertAttr attrs key shape = attrs ++ [(key, shape)] := by
  induction attrs with
  | nil => rfl
  | cons first rest ih =>
      obtain ⟨name, old⟩ := first
      rw [List.map_cons, List.mem_cons, not_or] at hkey
      rw [insertAttr, if_neg (Ne.symm hkey.1), ih hkey.2]
      rfl

theorem nodup_insertAttr {key : String} (hattrs : (attrs.map Prod.fst).Nodup) :
    ((insertAttr attrs key shape).map Prod.fst).Nodup := by
  by_cases hkey : key ∈ attrs.map Prod.fst
  · rw [keys_insertAttr_of_mem hkey]
    exact hattrs
  · rw [insertAttr_of_notMem hkey, List.map_append]
    exact List.nodup_append'.mpr ⟨hattrs, by simp, by simpa using hkey⟩

theorem distinctChildren_insertAttr {key : String}
    (hattrs : DistinctChildren attrs) (hshape : shape.DistinctAttrs) :
    DistinctChildren (insertAttr attrs key shape) := by
  induction attrs with
  | nil => exact ⟨hshape, trivial⟩
  | cons first rest ih =>
      rw [insertAttr]
      split
      · exact ⟨hshape, hattrs.2⟩
      · exact ⟨hattrs.1, ih hattrs.2⟩

theorem distinctAttrs_unionAttrs
    (hunion : ∀ entry ∈ others, ∀ shape : Declared, shape.DistinctAttrs →
      (union shape entry.2).DistinctAttrs)
    (hothers : DistinctChildren others)
    (hattrs : (Declared.record attrs).DistinctAttrs) :
    (Declared.record (unionAttrs attrs others)).DistinctAttrs := by
  induction others generalizing attrs with
  | nil =>
      rw [unionAttrs]
      exact hattrs
  | cons first rest ih =>
      obtain ⟨key, shape⟩ := first
      have hmerged : (mergedAttr attrs key shape).DistinctAttrs := by
        rw [mergedAttr]
        cases hdeclared : attr attrs key with
        | none => exact hothers.1
        | some declared =>
            exact hunion (key, shape) (by simp) declared
              (distinctAttrs_of_attr hattrs.2 hdeclared)
      rw [unionAttrs_cons]
      exact ih (fun entry hentry =>
        hunion entry (List.mem_cons_of_mem _ hentry)) hothers.2
        ⟨nodup_insertAttr hattrs.1,
          distinctChildren_insertAttr hattrs.2 hmerged⟩

theorem distinctAttrs_union {shape other : Declared}
    (hshape : shape.DistinctAttrs) (hother : other.DistinctAttrs) :
    (union shape other).DistinctAttrs := by
  induction other using Declared.induction generalizing shape with
  | unread => cases shape <;> trivial
  | record others ih =>
      cases shape with
      | unread => trivial
      | record attrs =>
          rw [union]
          exact distinctAttrs_unionAttrs (fun entry hentry shape hshape =>
            ih entry hentry hshape (distinctAttrs_of_mem hother.2 hentry))
            hother.2 hshape

theorem distinctAttrs_foldl_union {shapes : List Declared} {start : Declared}
    (hshapes : ∀ shape ∈ shapes, shape.DistinctAttrs)
    (hstart : start.DistinctAttrs) :
    (shapes.foldl union start).DistinctAttrs := by
  induction shapes generalizing start with
  | nil => exact hstart
  | cons first rest ih =>
      rw [List.forall_mem_cons] at hshapes
      exact ih hshapes.2 (distinctAttrs_union hstart hshapes.1)

/-! ## Names of paths -/

/-- A path's members, with dots between them. -/
def dotted : List String → String
  | [] => ""
  | [key] => key
  | key :: next :: rest => key ++ "." ++ dotted (next :: rest)

/-- A path's name as it is built up from an empty one. -/
def named (path : List String) : String := path.foldl memberPath ""

/-- A path below a member of the root has a name of its own in front. -/
def Nameable (path : List String) : Prop :=
  2 ≤ path.length → path.head? ≠ some ""

@[simp] theorem memberPath_root (key : String) : memberPath "" key = key := by
  simp [memberPath]

theorem foldl_memberPath {start : String} (hstart : start ≠ "")
    (path : List String) :
    path.foldl memberPath start = dotted (start :: path) := by
  induction path generalizing start with
  | nil => rfl
  | cons key rest ih =>
      have hnext : start ++ "." ++ key ≠ "" := by
        intro heq
        have hlength := congrArg String.length heq
        simp at hlength
      rw [List.foldl_cons, memberPath, if_neg (by simpa using hstart),
        ih hnext]
      cases rest with
      | nil => rfl
      | cons next rest => simp [dotted, String.append_assoc]

theorem named_cons {key : String} (hkey : key ≠ "") (rest : List String) :
    named (key :: rest) = dotted (key :: rest) := by
  rw [named, List.foldl_cons, memberPath_root, foldl_memberPath hkey]

theorem named_cons_empty (rest : List String) :
    named ("" :: rest) = named rest := by
  rw [named, List.foldl_cons, memberPath_root, ← named]

theorem length_named_le (path : List String) :
    (named path).length ≤ (dotted path).length := by
  induction path with
  | nil => simp [named]
  | cons key rest ih =>
      by_cases hkey : key = ""
      · subst hkey
        rw [named_cons_empty]
        cases rest with
        | nil => simp [dotted, named]
        | cons next rest =>
            rw [dotted, String.length_append]
            omega
      · rw [named_cons hkey]

theorem length_named_eq_iff (path : List String) :
    (named path).length = (dotted path).length ↔ Nameable path := by
  cases path with
  | nil => simp [named, dotted, Nameable]
  | cons key rest =>
      by_cases hkey : key = ""
      · subst hkey
        cases rest with
        | nil => simp [named, dotted, Nameable]
        | cons next rest =>
            have hle := length_named_le (next :: rest)
            have hlonger : (named ("" :: next :: rest)).length ≠
                (dotted ("" :: next :: rest)).length := by
              rw [named_cons_empty, dotted, String.length_append]
              have hdot : ("" ++ ".").length = 1 := by decide
              omega
            simp [hlonger, Nameable]
      · simp [named_cons hkey, Nameable, hkey]

theorem named_eq_of_nameable {path : List String} (hpath : Nameable path) :
    named path = dotted path := by
  cases path with
  | nil => rfl
  | cons key rest =>
      by_cases hkey : key = ""
      · subst hkey
        cases rest with
        | nil => rfl
        | cons next rest => simp [Nameable] at hpath
      · exact named_cons hkey rest

/-- The names are those of the paths just when every path has its own. -/
theorem perm_named_iff (paths : List (List String)) :
    (paths.map named).Perm (paths.map dotted) ↔
      ∀ path ∈ paths, Nameable path := by
  constructor
  · intro hperm path hpath
    by_contra hnot
    rw [← length_named_eq_iff] at hnot
    have hlt : (paths.map fun path => (named path).length).sum <
        (paths.map fun path => (dotted path).length).sum := by
      apply List.sum_lt_sum
      · exact fun path _ => length_named_le path
      · exact ⟨path, hpath, lt_of_le_of_ne (length_named_le path) hnot⟩
    have hsum := (hperm.map String.length).sum_eq
    rw [List.map_map, List.map_map] at hsum
    exact absurd hsum hlt.ne
  · intro hall
    rw [List.map_congr_left fun path hpath =>
      named_eq_of_nameable (hall path hpath)]

end Decern.Declared

namespace Decern.Kernel

open Serde (Map Value)
open Declared (Nameable Removed dotted named perm_named_iff)

variable {S P E : Type} (kernel : Kernel S P E)

/-- The shape a context is pruned to for an action. -/
def declaredShape (action : String) : Declared :=
  (kernel.contextShape[action]?).getD Declared.onlyNow

/-- What is removed is named in one order, whatever order it came in. -/
def sorted (names : List String) : List String :=
  names.mergeSort fun name other => decide (name ≤ other)

/-- A context without what the action does not declare, and the names of what
was removed. -/
def pruneUndeclaredNaming (action : String) (context : Value) :
    Value × List String :=
  let (pruned, dropped) :=
    (kernel.declaredShape action).pruneNaming context ""
  (pruned, sorted dropped)

/-- A context without what no action declares, and the names of what was
removed. -/
def pruneToAnyNaming (context : Value) : Value × List String :=
  let (pruned, dropped) := kernel.contextUnion.pruneNaming context ""
  (pruned, sorted dropped)

/-- The names are of the paths that are removed, each once. -/
def ReportsRemoved (action : String) (context : Value) : Prop :=
  ∃ removed : List (List String), removed.Nodup ∧
    (∀ path, path ∈ removed ↔
      Removed (kernel.declaredShape action) context path) ∧
    (kernel.pruneUndeclaredNaming action context).2.Perm (removed.map dotted)

/-- Pruning an action's context is a projection that says what it drops, and
one to the union of every action's shape loses nothing to it. -/
structure PrunesExactly (action : String) (context : Value) : Prop where
  kept : ∀ path : List String,
    ((kernel.pruneUndeclaredNaming action context).1.follow path).isSome ↔
      (context.follow path).isSome ∧
        ((kernel.declaredShape action).follow path).isSome
  unchanged : ∀ (path : List String) (value found : Value),
    context.follow path = some value →
    (kernel.pruneUndeclaredNaming action context).1.follow path =
      some found →
    value.asObject = none ∨
      (kernel.declaredShape action).follow path = some .unread →
    found = value
  objects : ∀ (path : List String) (value found : Value),
    context.follow path = some value →
    (kernel.pruneUndeclaredNaming action context).1.follow path =
      some found →
    value.asObject.isSome → found.asObject.isSome
  reported : kernel.ReportsRemoved action context
  idempotent : kernel.pruneUndeclaredNaming action
      (kernel.pruneUndeclaredNaming action context).1 =
    ((kernel.pruneUndeclaredNaming action context).1, [])
  union : (kernel.contextShape[action]?).isSome →
    (kernel.pruneUndeclaredNaming action
      (kernel.pruneToAnyNaming context).1).1 =
        (kernel.pruneUndeclaredNaming action context).1
  searched : ∀ (C : Type) (engine : Engine S P E C)
    (subject resource : EntityRef),
    kernel.searchActions engine subject resource
      (kernel.pruneToAnyNaming context).1 =
        kernel.searchActions engine subject resource context

/-- The shapes are maps: no record declares two attributes of one name. -/
def DeclaresMaps : Prop :=
  ∀ (action : String) (shape : Declared),
    kernel.contextShape[action]? = some shape → shape.DistinctAttrs

variable {kernel} {action : String} {context : Value}

theorem distinctAttrs_declaredShape (hshapes : kernel.DeclaresMaps)
    (action : String) : (kernel.declaredShape action).DistinctAttrs := by
  rw [declaredShape]
  cases hshape : kernel.contextShape[action]? with
  | none => exact ⟨by simp, trivial, trivial⟩
  | some shape => exact hshapes action shape hshape

theorem sorted_perm (names : List String) : (sorted names).Perm names :=
  List.mergeSort_perm names _

theorem values_eq_map_toList {V : Type} (map : StringMap V) :
    map.values = map.toList.map Prod.snd := by
  obtain ⟨inner⟩ := map
  induction inner with
  | _ inner =>
      change Std.DTreeMap.Internal.Impl.values _ =
        (Std.DTreeMap.Internal.Impl.Const.toList _).map Prod.snd
      rw [Std.DTreeMap.Internal.Impl.values_eq_map_snd]
      simp [Std.DTreeMap.Internal.Impl.Const.toList_eq_toListModel_map]

theorem mem_values_iff {shape : Declared} :
    shape ∈ kernel.contextShape.values ↔
      ∃ action : String, kernel.contextShape[action]? = some shape := by
  rw [values_eq_map_toList, List.mem_map]
  constructor
  · intro hmem
    obtain ⟨entry, hentry, rfl⟩ := hmem
    exact ⟨entry.1, Std.ExtTreeMap.mem_toList_iff_getElem?_eq_some.mp hentry⟩
  · intro hmem
    obtain ⟨action, haction⟩ := hmem
    exact ⟨(action, shape),
      Std.ExtTreeMap.mem_toList_iff_getElem?_eq_some.mpr haction, rfl⟩

theorem covers_contextUnion {shape : Declared}
    (hshape : kernel.contextShape[action]? = some shape) :
    shape.Covers kernel.contextUnion :=
  (Declared.covers_foldl_union _ _).2 shape (mem_values_iff.mpr ⟨_, hshape⟩)

theorem distinctAttrs_contextUnion (hshapes : kernel.DeclaresMaps) :
    kernel.contextUnion.DistinctAttrs := by
  apply Declared.distinctAttrs_foldl_union
  · intro shape hshape
    obtain ⟨action, haction⟩ := mem_values_iff.mp hshape
    exact hshapes action shape haction
  · exact ⟨by simp, trivial⟩

theorem pruneUndeclaredNaming_eq (hshapes : kernel.DeclaresMaps)
    (hcontext : context.Distinct) :
    kernel.pruneUndeclaredNaming action context =
      (kernel.pruneUndeclaredContext action context,
        sorted (((kernel.declaredShape action).removed context).map named)) := by
  rw [pruneUndeclaredNaming, Declared.namesWell (kernel.declaredShape action)
    context "" (distinctAttrs_declaredShape hshapes action) hcontext]
  rfl

theorem pruneToAnyNaming_eq (hshapes : kernel.DeclaresMaps)
    (hcontext : context.Distinct) :
    kernel.pruneToAnyNaming context = (kernel.pruneToAnyDeclared context,
      sorted ((kernel.contextUnion.removed context).map named)) := by
  rw [pruneToAnyNaming, Declared.namesWell kernel.contextUnion context ""
    (distinctAttrs_contextUnion hshapes) hcontext]
  rfl

theorem pruneUndeclaredContext_eq :
    kernel.pruneUndeclaredContext action context =
      (kernel.declaredShape action).prune context := rfl

/-- A declared action reads of the union what it reads of the whole. -/
theorem pruneUndeclared_pruneToAny
    (haction : (kernel.contextShape[action]?).isSome) :
    kernel.pruneUndeclaredContext action (kernel.pruneToAnyDeclared context) =
      kernel.pruneUndeclaredContext action context := by
  obtain ⟨shape, hshape⟩ := Option.isSome_iff_exists.mp haction
  have hdeclared : kernel.declaredShape action = shape := by
    rw [declaredShape, hshape]
    rfl
  rw [pruneUndeclaredContext_eq, pruneUndeclaredContext_eq, hdeclared]
  exact (covers_contextUnion hshape).prune_prune context

theorem searchActions_pruneToAny {C : Type} (engine : Engine S P E C)
    (subject resource : EntityRef) :
    kernel.searchActions engine subject resource
      (kernel.pruneToAnyDeclared context) =
        kernel.searchActions engine subject resource context := by
  apply List.filter_congr
  intro action haction
  rw [pruneUndeclared_pruneToAny]
  rw [Std.ExtTreeMap.mem_keys] at haction
  rw [Std.ExtTreeMap.isSome_getElem?_iff_mem]
  exact haction

/-- What is pruned once loses nothing more. -/
theorem removed_prune {shape : Declared} (hshape : shape.DistinctAttrs)
    (value : Value) : shape.removed (shape.prune value) = [] := by
  rw [List.eq_nil_iff_forall_not_mem]
  intro path hpath
  have hremoved := (Declared.mem_removed_iff hshape).mp hpath
  have hfound := hremoved.found
  rw [Declared.follow_prune, hremoved.undeclared] at hfound
  cases hfound

theorem reportsRemoved_iff (hshapes : kernel.DeclaresMaps)
    (hcontext : context.Distinct) :
    kernel.ReportsRemoved action context ↔
      ∀ path, Removed (kernel.declaredShape action) context path →
        Nameable path := by
  have hdistinct := distinctAttrs_declaredShape hshapes action
  have hnames : (kernel.pruneUndeclaredNaming action context).2.Perm
      (((kernel.declaredShape action).removed context).map named) := by
    rw [pruneUndeclaredNaming_eq hshapes hcontext]
    exact sorted_perm _
  have hmem (path : List String) :
      path ∈ (kernel.declaredShape action).removed context ↔
        Removed (kernel.declaredShape action) context path :=
    Declared.mem_removed_iff hdistinct
  have hnodup := Declared.nodup_removed hdistinct hcontext
  constructor
  · intro hreported path hpath
    obtain ⟨removed, hremoved, hpaths, hperm⟩ := hreported
    have hsame : removed.Perm
        ((kernel.declaredShape action).removed context) := by
      rw [List.perm_ext_iff_of_nodup hremoved hnodup]
      exact fun found => (hpaths found).trans (hmem found).symm
    have hboth := hnames.symm.trans (hperm.trans (hsame.map dotted))
    exact (perm_named_iff _).mp hboth path ((hmem path).mpr hpath)
  · intro hnameable
    refine ⟨_, hnodup, hmem, hnames.trans ((perm_named_iff _).mpr ?_)⟩
    exact fun path hpath => hnameable path ((hmem path).mp hpath)

/-- The projection law holds just where every removed path is nameable: none
lies below a member of the root whose name is empty. -/
theorem prunesExactly_iff (hshapes : kernel.DeclaresMaps)
    (hcontext : context.Distinct) :
    kernel.PrunesExactly action context ↔
      ∀ path, Removed (kernel.declaredShape action) context path →
        Nameable path := by
  rw [← reportsRemoved_iff hshapes hcontext]
  have hdistinct := distinctAttrs_declaredShape hshapes action
  have hpruned : (kernel.pruneUndeclaredNaming action context).1 =
      (kernel.declaredShape action).prune context := by
    rw [pruneUndeclaredNaming_eq hshapes hcontext]
    rfl
  have hunion : (kernel.pruneToAnyNaming context).1 =
      kernel.pruneToAnyDeclared context := by
    rw [pruneToAnyNaming_eq hshapes hcontext]
  constructor
  · exact fun hexact => hexact.reported
  · intro hreported
    refine ⟨?_, ?_, ?_, hreported, ?_, ?_, ?_⟩
    · intro path
      rw [hpruned, Declared.follow_prune]
      cases (kernel.declaredShape action).follow path with
      | none => simp
      | some child => simp
    · intro path value found hvalue hfound hopaque
      rw [hpruned, Declared.follow_prune, hvalue] at hfound
      cases hchild : (kernel.declaredShape action).follow path with
      | none => simp [hchild] at hfound
      | some child =>
          have heq : child.prune value = found := by
            simpa [hchild] using hfound
          rw [← heq]
          rcases hopaque with hleaf | hunread
          · exact Declared.prune_of_asObject_eq_none hleaf
          · rw [hchild, Option.some.injEq] at hunread
            rw [hunread, Declared.prune_unread]
    · intro path value found hvalue hfound hobject
      rw [hpruned, Declared.follow_prune, hvalue] at hfound
      cases hchild : (kernel.declaredShape action).follow path with
      | none => simp [hchild] at hfound
      | some child =>
          have heq : child.prune value = found := by
            simpa [hchild] using hfound
          rw [← heq]
          cases value with
          | object members => cases child <;> rfl
          | null => cases hobject
          | bool flag => cases hobject
          | number number => cases hobject
          | string text => cases hobject
          | array items => cases hobject
    · rw [hpruned, pruneUndeclaredNaming_eq hshapes
        (Declared.distinct_prune hcontext), pruneUndeclaredContext_eq,
        Declared.prune_prune, removed_prune hdistinct]
      simp [sorted]
    · intro haction
      have hless : (kernel.pruneToAnyDeclared context).Distinct :=
        Declared.distinct_prune hcontext
      rw [hpruned, hunion, pruneUndeclaredNaming_eq hshapes hless]
      exact pruneUndeclared_pruneToAny haction
    · intro C engine subject resource
      rw [hunion]
      exact searchActions_pruneToAny engine subject resource

/-! ## A sample -/

/-- A kernel that declares one action. -/
def declaringKernel (action : String) (shape : Declared) :
    Kernel Unit Unit Unit where
  schema := ()
  contextShape := (∅ : StringMap Declared).insert action shape
  policies := ()
  entities := ()
  directory := ⟨∅, ∅, ∅⟩

theorem declaresMaps_declaringKernel {shape : Declared}
    (hshape : shape.DistinctAttrs) :
    (declaringKernel action shape).DeclaresMaps := by
  intro name found hfound
  rw [declaringKernel, Std.ExtTreeMap.getElem?_insert] at hfound
  split at hfound
  · cases hfound
    exact hshape
  · simp at hfound

theorem declaredShape_declaringKernel (shape : Declared) :
    (declaringKernel action shape).declaredShape action = shape := by
  simp [declaredShape, declaringKernel]

def readShape : Declared :=
  .record [("now", .unread), ("subject", .record [("role", .unread)])]

def readContext : Value :=
  .object [("now", .number (.posInt 1)), ("ip", .string "10.0.0.1"),
    ("subject", .object [("role", .string "admin"),
      ("department", .string "Sales")])]

theorem prunesExactly_readContext :
    (declaringKernel "Read" readShape).PrunesExactly "Read" readContext := by
  have hshape : readShape.DistinctAttrs := by
    simp [readShape, Declared.DistinctAttrs, Declared.DistinctChildren]
  have hcontext : readContext.Distinct := by
    simp [readContext, Serde.Value.Distinct, Serde.Value.DistinctMembers]
  apply (prunesExactly_iff (declaresMaps_declaringKernel hshape)
    hcontext).mpr
  intro path hpath
  rw [declaredShape_declaringKernel, ← Declared.mem_removed_iff hshape] at hpath
  have hpaths : readShape.removed readContext =
      [["ip"], ["subject", "department"]] := by decide +kernel
  rw [hpaths] at hpath
  rcases List.mem_pair.mp hpath with rfl | rfl <;> simp [Nameable]

/-- A record below the empty name. -/
def namelessShape : Declared := .record [("", .record [])]

def namelessContext : Value :=
  .object [("", .object [("x", .number (.posInt 1))])]

/-- The member below is named as one of the root. -/
theorem not_prunesExactly_namelessContext :
    ¬ (declaringKernel "Read" namelessShape).PrunesExactly "Read"
      namelessContext := by
  intro hexact
  have hshape : namelessShape.DistinctAttrs := by
    simp [namelessShape, Declared.DistinctAttrs, Declared.DistinctChildren]
  have hcontext : namelessContext.Distinct := by
    simp [namelessContext, Serde.Value.Distinct, Serde.Value.DistinctMembers]
  have hnameable := (reportsRemoved_iff
    (declaresMaps_declaringKernel hshape) hcontext).mp hexact.reported
    ["", "x"]
  rw [declaredShape_declaringKernel, ← Declared.mem_removed_iff hshape]
    at hnameable
  have hpaths : namelessShape.removed namelessContext = [["", "x"]] := by
    decide +kernel
  simp [hpaths, Nameable] at hnameable

end Decern.Kernel
