import Decern.JsonRoundTrip
import Decern.NumberTexts
import Decern.Utf16
import Mathlib.Tactic

/-!
# Canonical JSON

A value's canonical text has its members ordered by the UTF-16 units of their
names, no space between tokens and numbers as ECMAScript prints them.  It is
the printed text of the value's ordered tree, so it determines the value up to
the order of members, and is read back as it.
-/

namespace Decern

open JsonText (Doc StringUnit commaSeparated printString ofString parse)
open Serde (FloatText Map Value naturalText negativeText)

/-! ## The writer -/

section Writer

variable (floats : FloatText) (formatFinite : FiniteDouble → List Char)

/-- Entries ordered by the UTF-16 units of their names. -/
def sortedKeys {α : Type} (entries : List (String × α)) :
    List (String × α) :=
  entries.mergeSort fun left right => Utf16.atMost left.1 right.1

def memberText (entry : String × List Char) : List Char :=
  printString (ofString entry.1) ++ ':' :: entry.2

mutual

/-- `write_canonical`; nothing where the writer of a number panics. -/
def writeCanonical : Value → Option (List Char)
  | .object members => (writeMembers members).map fun written =>
      '{' :: (commaSeparated ((sortedKeys written).map memberText) ++ ['}'])
  | .array items => (writeItems items).map fun texts =>
      '[' :: (commaSeparated texts ++ [']'])
  | .number n => writeNumber floats formatFinite n
  | .string value => some (printString (ofString value))
  | .bool value => some (JsonText.print (.bool value))
  | .null => some (JsonText.print .null)

def writeItems : List Value → Option (List (List Char))
  | [] => some []
  | item :: rest => do
      let text ← writeCanonical item
      let texts ← writeItems rest
      some (text :: texts)

/-- Each name with the text of its value. -/
def writeMembers :
    List (String × Value) → Option (List (String × List Char))
  | [] => some []
  | (name, value) :: rest => do
      let text ← writeCanonical value
      let texts ← writeMembers rest
      some ((name, text) :: texts)

end

def canonicalize (v : Value) : Option String :=
  (writeCanonical floats formatFinite v).map String.ofList

end Writer

/-! ## Data -/

/-- The values whose numbers are integers of 64 bits; an object's names are
distinct. -/
inductive IntegerData : Value → Prop where
  | null : IntegerData .null
  | bool (value : Bool) : IntegerData (.bool value)
  | natural (value : UInt64) : IntegerData (.number (.posInt value))
  | negative (value : Int64) (hvalue : value.toInt < 0) :
      IntegerData (.number (.negInt value))
  | string (value : String) : IntegerData (.string value)
  | array (items : List Value) (hitems : ∀ item ∈ items, IntegerData item) :
      IntegerData (.array items)
  | object (members : Map) (hnames : (members.map Prod.fst).Nodup)
      (hmembers : ∀ member ∈ members, IntegerData member.2) :
      IntegerData (.object members)

/-- The same data: arrays in order, objects as finite maps. -/
inductive SameData : Value → Value → Prop where
  | null : SameData .null .null
  | bool (value : Bool) : SameData (.bool value) (.bool value)
  | number (value : Serde.Number) : SameData (.number value) (.number value)
  | string (value : String) : SameData (.string value) (.string value)
  | array (left right : List Value) (hlength : left.length = right.length)
      (hitems : ∀ (index : ℕ) (a b : Value), left[index]? = some a →
        right[index]? = some b → SameData a b) :
      SameData (.array left) (.array right)
  | object (left right : Map)
      (hnames : ∀ name, (left.get name).isSome = (right.get name).isSome)
      (hvalues : ∀ (name : String) (a b : Value), left.get name = some a →
        right.get name = some b → SameData a b) :
      SameData (.object left) (.object right)

/-! ## Entries by name -/

section Entries

variable {α β : Type}

theorem sortedKeys_perm (entries : List (String × α)) :
    (sortedKeys entries).Perm entries :=
  List.mergeSort_perm _ _

theorem sortedKeys_pairwise (entries : List (String × α)) :
    (sortedKeys entries).Pairwise
      fun left right => Utf16.atMost left.1 right.1 = true := by
  unfold sortedKeys
  apply List.pairwise_mergeSort
  · intro a b c
    exact Utf16.atMost_trans a.1 b.1 c.1
  · intro a b
    exact Utf16.atMost_total a.1 b.1

theorem sortedKeys_map (entries : List (String × α)) (f : α → β) :
    sortedKeys (entries.map fun entry => (entry.1, f entry.2)) =
      (sortedKeys entries).map fun entry => (entry.1, f entry.2) := by
  unfold sortedKeys
  rw [List.map_mergeSort]
  intro _ _ _ _
  rfl

/-- Entries with distinct names have one order. -/
theorem sortedKeys_eq_of_perm {left right : List (String × α)}
    (hnames : (left.map Prod.fst).Nodup) (hperm : left.Perm right) :
    sortedKeys left = sortedKeys right := by
  have hsame : ∀ a b, a ∈ sortedKeys left → b ∈ sortedKeys right →
      Utf16.atMost a.1 b.1 = true → Utf16.atMost b.1 a.1 = true →
        a = b := by
    intro a b ha hb hab hba
    have hname : a.1 = b.1 := Utf16.atMost_antisymm hab hba
    have hal : a ∈ left := (sortedKeys_perm left).mem_iff.mp ha
    have hbl : b ∈ left :=
      hperm.mem_iff.mpr ((sortedKeys_perm right).mem_iff.mp hb)
    exact List.inj_on_of_nodup_map hnames hal hbl hname
  have hsorted : (sortedKeys left).Perm (sortedKeys right) :=
    (sortedKeys_perm left).trans (hperm.trans (sortedKeys_perm right).symm)
  exact hsorted.eq_of_pairwise hsame (sortedKeys_pairwise left)
    (sortedKeys_pairwise right)

theorem get_eq_some_iff {members : Map} (hnames : (members.map Prod.fst).Nodup)
    {name : String} {value : Value} :
    members.get name = some value ↔ (name, value) ∈ members := by
  induction members with
  | nil => simp
  | cons member rest ih =>
      rcases member with ⟨first, inner⟩
      rw [List.map_cons, List.nodup_cons] at hnames
      rw [Map.get_cons]
      by_cases hname : name = first
      · subst hname
        have hnone : (name, value) ∉ rest := by
          intro hmem
          exact hnames.1 (List.mem_map.mpr ⟨_, hmem, rfl⟩)
        simp [hnone, eq_comm]
      · simp [hname, ih hnames.2]

theorem get_perm {left right : Map} (hnames : (left.map Prod.fst).Nodup)
    (hperm : left.Perm right) (name : String) :
    left.get name = right.get name := by
  have hnames' : (right.map Prod.fst).Nodup :=
    (hperm.map Prod.fst).nodup_iff.mp hnames
  apply Option.ext
  intro value
  rw [get_eq_some_iff hnames, get_eq_some_iff hnames', hperm.mem_iff]

theorem get_map_values {members : Map} (f : Value → Value) (name : String) :
    Map.get (members.map fun member => (member.1, f member.2)) name =
      (members.get name).map f := by
  induction members with
  | nil => rfl
  | cons member rest ih =>
      rcases member with ⟨first, inner⟩
      rw [List.map_cons, Map.get_cons, Map.get_cons, ih]
      split <;> rfl

end Entries

/-! ## The ordered tree -/

mutual

/-- A value with the members of every object in canonical order. -/
def ordered : Value → Value
  | .object members => .object (sortedKeys (orderedMembers members))
  | .array items => .array (orderedItems items)
  | v => v

def orderedItems : List Value → List Value
  | [] => []
  | item :: rest => ordered item :: orderedItems rest

def orderedMembers : List (String × Value) → List (String × Value)
  | [] => []
  | (name, value) :: rest => (name, ordered value) :: orderedMembers rest

end

theorem orderedItems_eq (items : List Value) :
    orderedItems items = items.map ordered := by
  induction items with
  | nil => rfl
  | cons item rest ih => rw [orderedItems, ih, List.map_cons]

theorem orderedMembers_eq (members : Map) :
    orderedMembers members =
      members.map fun member => (member.1, ordered member.2) := by
  induction members with
  | nil => rfl
  | cons member rest ih => rw [orderedMembers, ih, List.map_cons]

theorem names_map_values {members : Map} (f : Value → Value) :
    (members.map fun member => (member.1, f member.2)).map Prod.fst =
      members.map Prod.fst := by
  rw [List.map_map]
  rfl

/-- The order of an object's members is a matter of the object's map. -/
theorem get_ordered {members : Map} (hnames : (members.map Prod.fst).Nodup)
    (name : String) :
    Map.get (sortedKeys (orderedMembers members)) name =
      (members.get name).map ordered := by
  have hsorted : ((sortedKeys (orderedMembers members)).map Prod.fst).Nodup :=
    by
      rw [((sortedKeys_perm _).map Prod.fst).nodup_iff, orderedMembers_eq,
        names_map_values]
      exact hnames
  rw [get_perm hsorted (sortedKeys_perm _), orderedMembers_eq,
    get_map_values]

theorem IntegerData.ordered {v : Value} (hv : IntegerData v) :
    IntegerData (ordered v) := by
  induction hv with
  | null => exact .null
  | bool value => exact .bool value
  | natural value => exact .natural value
  | negative value hvalue => exact .negative value hvalue
  | string value => exact .string value
  | array items _ ih =>
      rw [Decern.ordered, orderedItems_eq]
      apply IntegerData.array
      intro item hitem
      rcases List.mem_map.mp hitem with ⟨source, hsource, rfl⟩
      exact ih source hsource
  | object members hnames _ ih =>
      rw [Decern.ordered, orderedMembers_eq]
      apply IntegerData.object
      · rw [((sortedKeys_perm _).map Prod.fst).nodup_iff, names_map_values]
        exact hnames
      · intro member hmember
        have hsource := (sortedKeys_perm _).mem_iff.mp hmember
        rcases List.mem_map.mp hsource with ⟨source, hmem, rfl⟩
        exact ih source hmem

/-! ## Order and data -/

theorem SameData.symm {a b : Value} (hab : SameData a b) : SameData b a := by
  induction hab with
  | null => exact .null
  | bool value => exact .bool value
  | number value => exact .number value
  | string value => exact .string value
  | array left right hlength _ ih =>
      apply SameData.array _ _ hlength.symm
      intro index a b ha hb
      exact ih index b a hb ha
  | object left right hnames _ ih =>
      apply SameData.object _ _ fun name => (hnames name).symm
      intro name a b ha hb
      exact ih name b a hb ha

theorem SameData.trans {a b c : Value} (hab : SameData a b)
    (hbc : SameData b c) : SameData a c := by
  induction hab generalizing c with
  | null => exact hbc
  | bool value => exact hbc
  | number value => exact hbc
  | string value => exact hbc
  | array left right hlength _ ih =>
      cases hbc with
      | array _ last hlength' hitems' =>
          apply SameData.array _ _ (hlength.trans hlength')
          intro index a c ha hc
          have hindex : index < right.length := by
            rw [← hlength]
            exact (List.getElem?_eq_some_iff.mp ha).1
          have hb := List.getElem?_eq_getElem hindex
          exact ih index a _ ha hb (hitems' index _ c hb hc)
  | object left right hnames _ ih =>
      cases hbc with
      | object _ last hnames' hvalues' =>
          apply SameData.object _ _ fun name =>
            (hnames name).trans (hnames' name)
          intro name a c ha hc
          have hsome : (right.get name).isSome := by
            rw [← hnames name, ha]
            rfl
          rcases Option.isSome_iff_exists.mp hsome with ⟨b, hb⟩
          exact ih name a b ha hb (hvalues' name b c hb hc)

theorem sameData_ordered {v : Value} (hv : IntegerData v) :
    SameData v (ordered v) := by
  induction hv with
  | null => exact .null
  | bool value => exact .bool value
  | natural value => exact .number _
  | negative value hvalue => exact .number _
  | string value => exact .string value
  | array items _ ih =>
      rw [ordered, orderedItems_eq]
      apply SameData.array _ _ (by simp)
      intro index a b ha hb
      rw [List.getElem?_map, ha] at hb
      rw [← Option.some.inj hb]
      exact ih a (List.mem_of_getElem? ha)
  | object members hnames _ ih =>
      rw [ordered]
      apply SameData.object
      · intro name
        rw [get_ordered hnames, Option.isSome_map]
      · intro name a b ha hb
        rw [get_ordered hnames, ha] at hb
        rw [← Option.some.inj hb]
        exact ih (name, a) ((get_eq_some_iff hnames).mp ha)

theorem mem_map_ordered_iff {members : Map}
    (hnames : (members.map Prod.fst).Nodup) {name : String} {v : Value} :
    (name, v) ∈ (members.map fun member => (member.1, ordered member.2)) ↔
      (members.get name).map ordered = some v := by
  have hmapped : ((members.map fun member =>
      (member.1, ordered member.2)).map Prod.fst).Nodup := by
    rw [names_map_values]
    exact hnames
  rw [← get_eq_some_iff hmapped, get_map_values]

theorem ordered_eq_of_sameData {a b : Value} (hab : SameData a b)
    (ha : IntegerData a) (hb : IntegerData b) : ordered a = ordered b := by
  induction hab with
  | null => rfl
  | bool value => rfl
  | number value => rfl
  | string value => rfl
  | array left right hlength _ ih =>
      cases ha with
      | array _ hleft =>
          cases hb with
          | array _ hright =>
              rw [ordered, ordered, orderedItems_eq, orderedItems_eq]
              congr 1
              apply List.ext_getElem?
              intro index
              rw [List.getElem?_map, List.getElem?_map]
              cases ha : left[index]? with
              | none =>
                  have hle := List.getElem?_eq_none_iff.mp ha
                  rw [List.getElem?_eq_none (by omega)]
              | some a =>
                  have hindex : index < right.length := by
                    rw [← hlength]
                    exact (List.getElem?_eq_some_iff.mp ha).1
                  have hb := List.getElem?_eq_getElem hindex
                  have hsame := ih index a _ ha hb
                    (hleft a (List.mem_of_getElem? ha))
                    (hright _ (List.mem_of_getElem? hb))
                  rw [hb, Option.map_some, Option.map_some, hsame]
  | object left right hnames _ ih =>
      cases ha with
      | object _ hleft hleftData =>
          cases hb with
          | object _ hright hrightData =>
              rw [ordered, ordered, orderedMembers_eq, orderedMembers_eq]
              congr 1
              have hnodup := hleft
              have hnodup' := hright
              rw [← names_map_values ordered] at hnodup hnodup'
              apply sortedKeys_eq_of_perm hnodup
              rw [List.perm_ext_iff_of_nodup hnodup.of_map hnodup'.of_map]
              rintro ⟨name, v⟩
              rw [mem_map_ordered_iff hleft, mem_map_ordered_iff hright]
              have hsome := hnames name
              cases hl : left.get name with
              | none =>
                  rw [hl] at hsome
                  have hr : right.get name = none :=
                    Option.isSome_eq_false_iff.mp hsome.symm |>
                      Option.isNone_iff_eq_none.mp
                  rw [hr]
              | some a =>
                  rw [hl] at hsome
                  rcases Option.isSome_iff_exists.mp hsome.symm with ⟨b, hr⟩
                  have hvalue := ih name a b hl hr
                    (hleftData _ ((get_eq_some_iff hleft).mp hl))
                    (hrightData _ ((get_eq_some_iff hright).mp hr))
                  rw [hr, Option.map_some, Option.map_some, hvalue]

/-- Two values have one ordered tree exactly when they are the same data. -/
theorem ordered_eq_iff {a b : Value} (ha : IntegerData a)
    (hb : IntegerData b) : ordered a = ordered b ↔ SameData a b := by
  constructor
  · intro heq
    have hleft := sameData_ordered ha
    rw [heq] at hleft
    exact hleft.trans (sameData_ordered hb).symm
  · intro hsame
    exact ordered_eq_of_sameData hsame ha hb

/-! ## The text is the ordered tree's -/

section Texts

variable (floats : FloatText) (formatFinite : FiniteDouble → List Char)

theorem toDocs_eq (items : List Value) :
    Value.toDocs floats items = items.map (Value.toDoc floats) := by
  induction items with
  | nil => rfl
  | cons item rest ih => rw [Value.toDocs, ih, List.map_cons]

theorem toMembers_eq (members : Map) :
    Value.toMembers floats members = members.map fun member =>
      (ofString member.1, Value.toDoc floats member.2) := by
  induction members with
  | nil => rfl
  | cons member rest ih => rw [Value.toMembers, ih, List.map_cons]

/-- The text of a value's ordered tree. -/
def orderedText (v : Value) : List Char :=
  JsonText.print (Value.toDoc floats (ordered v))

theorem orderedText_array (items : List Value) :
    orderedText floats (.array items) =
      '[' :: (commaSeparated (items.map (orderedText floats)) ++ [']']) := by
  rw [orderedText, ordered, Value.toDoc, JsonText.print_array, toDocs_eq,
    orderedItems_eq, List.map_map, List.map_map]
  rfl

theorem orderedText_object (members : Map) :
    orderedText floats (.object members) =
      '{' :: (commaSeparated ((sortedKeys (members.map fun member =>
        (member.1, orderedText floats member.2))).map memberText) ++
          ['}']) := by
  rw [orderedText, ordered, Value.toDoc, JsonText.print_object, toMembers_eq,
    orderedMembers_eq, sortedKeys_map, sortedKeys_map, List.map_map,
    List.map_map, List.map_map]
  rfl

theorem writeItems_eq {items : List Value}
    (hitems : ∀ item ∈ items, writeCanonical floats formatFinite item =
      some (orderedText floats item)) :
    writeItems floats formatFinite items =
      some (items.map (orderedText floats)) := by
  induction items with
  | nil => rfl
  | cons item rest ih =>
      have hrest := ih fun other hother =>
        hitems other (List.mem_cons_of_mem _ hother)
      simp [writeItems, hitems item List.mem_cons_self, hrest]

theorem writeMembers_eq {members : Map}
    (hmembers : ∀ member ∈ members,
      writeCanonical floats formatFinite member.2 =
        some (orderedText floats member.2)) :
    writeMembers floats formatFinite members =
      some (members.map fun member =>
        (member.1, orderedText floats member.2)) := by
  induction members with
  | nil => rfl
  | cons member rest ih =>
      have hrest := ih fun other hother =>
        hmembers other (List.mem_cons_of_mem _ hother)
      simp [writeMembers, hmembers member List.mem_cons_self, hrest]

theorem writeCanonical_eq {v : Value} (hv : IntegerData v) :
    writeCanonical floats formatFinite v = some (orderedText floats v) := by
  induction hv with
  | null => rfl
  | bool value => rfl
  | natural value => rfl
  | negative value hvalue => rfl
  | string value => rfl
  | array items _ ih =>
      rw [writeCanonical, writeItems_eq floats formatFinite ih,
        orderedText_array, Option.map_some]
  | object members _ _ ih =>
      rw [writeCanonical, writeMembers_eq floats formatFinite ih,
        orderedText_object, Option.map_some]

/-! ## Reading the text back -/

theorem ofText_toText_natural (value : UInt64) :
    Serde.Number.ofText floats (naturalText value.toNat) =
      some (.posInt value) := by
  have hlt : value.toNat < 2 ^ 64 := value.toNat_lt
  rw [Serde.Number.ofText, Serde.natural_naturalText]
  simp only [hlt, if_true]
  simp

theorem ofText_toText_negative {value : Int64} (hvalue : value.toInt < 0) :
    Serde.Number.ofText floats ((Serde.Number.negInt value).toText floats) =
      some (.negInt value) := by
  have hlow : -2 ^ 63 ≤ value.toInt := value.le_toInt
  cases hint : value.toInt with
  | ofNat n =>
      rw [hint] at hvalue
      exact absurd hvalue (by simp)
  | negSucc n =>
      have hle : 0 < n + 1 ∧ n + 1 ≤ 2 ^ 63 := by
        rw [hint] at hlow
        omega
      have hback : Int64.ofInt (-((n + 1 : ℕ) : ℤ)) = value := by
        have hneg : -((n + 1 : ℕ) : ℤ) = Int.negSucc n := rfl
        rw [hneg, ← hint, Int64.ofInt_toInt]
      simp only [Serde.Number.toText, Serde.Number.ofText, hint,
        Serde.natural_negativeText, Serde.negated_negativeText, hle,
        and_self, if_true, hback]

theorem insert_fresh {members : Map} {name : String} (value : Value)
    (hname : name ∉ members.map Prod.fst) :
    members.insert name value = members ++ [(name, value)] := by
  induction members with
  | nil => rfl
  | cons member rest ih =>
      rcases member with ⟨first, old⟩
      rw [List.map_cons, List.mem_cons, not_or] at hname
      rw [Map.insert, if_neg (Ne.symm hname.1), ih hname.2,
        List.cons_append]

theorem ofMembers_toMembers {members earlier : Map}
    (hread : ∀ member ∈ members,
      Value.ofDoc floats (Value.toDoc floats member.2) = some member.2)
    (hnames : ((earlier ++ members).map Prod.fst).Nodup) :
    Value.ofMembers floats (Value.toMembers floats members) earlier =
      some (earlier ++ members) := by
  induction members generalizing earlier with
  | nil => rw [List.append_nil]; rfl
  | cons member rest ih =>
      rcases member with ⟨name, value⟩
      have hfresh : name ∉ earlier.map Prod.fst := by
        intro hmem
        rw [List.map_append, List.map_cons] at hnames
        exact List.disjoint_of_nodup_append hnames hmem List.mem_cons_self
      have hrest := @ih (earlier ++ [(name, value)])
        (fun other hother => hread other (List.mem_cons_of_mem _ hother))
        (by rwa [List.append_assoc, List.singleton_append])
      rw [List.append_assoc, List.singleton_append] at hrest
      simp only [Value.toMembers, Value.ofMembers, JsonText.text_ofString,
        hread _ List.mem_cons_self, Option.bind_eq_bind, Option.bind_some,
        insert_fresh value hfresh, hrest]

theorem ofDocs_toDocs {items : List Value}
    (hread : ∀ item ∈ items,
      Value.ofDoc floats (Value.toDoc floats item) = some item) :
    Value.ofDocs floats (Value.toDocs floats items) = some items := by
  induction items with
  | nil => rfl
  | cons item rest ih =>
      have hrest := ih fun other hother =>
        hread other (List.mem_cons_of_mem _ hother)
      simp [Value.toDocs, Value.ofDocs, hread item List.mem_cons_self, hrest]

theorem ofDoc_toDoc {v : Value} (hv : IntegerData v) :
    Value.ofDoc floats (Value.toDoc floats v) = some v := by
  induction hv with
  | null => rfl
  | bool value => rfl
  | natural value =>
      rw [Value.toDoc, Serde.Number.toText, Value.ofDoc,
        ofText_toText_natural, Option.map_some]
  | negative value hvalue =>
      rw [Value.toDoc, Value.ofDoc, ofText_toText_negative floats hvalue,
        Option.map_some]
  | string value =>
      rw [Value.toDoc, Value.ofDoc, JsonText.text_ofString, Option.map_some]
  | array items _ ih =>
      rw [Value.toDoc, Value.ofDoc, ofDocs_toDocs floats ih,
        Option.map_some]
  | object members hnames _ ih =>
      have hmembers : Value.ofMembers floats
          (Value.toMembers floats members) [] = some members :=
        ofMembers_toMembers floats ih hnames
      rw [Value.toDoc, Value.ofDoc, hmembers, Option.map_some]

theorem nesting_le_iff_items (items : List Value) (bound : ℕ) :
    Value.nestingItems items ≤ bound ↔
      ∀ item ∈ items, item.nesting ≤ bound := by
  induction items with
  | nil => simp [Value.nestingItems]
  | cons item rest ih =>
      rw [Value.nestingItems, max_le_iff, ih]
      simp

theorem nesting_ordered_le {v : Value} (hv : IntegerData v) :
    (ordered v).nesting ≤ v.nesting := by
  induction hv with
  | null => exact le_rfl
  | bool value => exact le_rfl
  | natural value => exact le_rfl
  | negative value hvalue => exact le_rfl
  | string value => exact le_rfl
  | array items _ ih =>
      rw [ordered, orderedItems_eq, Value.nesting, Value.nesting]
      apply Nat.add_le_add_left
      rw [nesting_le_iff_items]
      intro item hitem
      rcases List.mem_map.mp hitem with ⟨source, hsource, rfl⟩
      exact (ih source hsource).trans
        ((nesting_le_iff_items items _).mp le_rfl source hsource)
  | object members _ _ ih =>
      rw [ordered, orderedMembers_eq, Value.nesting, Value.nesting]
      apply Nat.add_le_add_left
      rw [Value.nestingMembers_le_iff]
      intro member hmember
      have hmapped := (sortedKeys_perm _).mem_iff.mp hmember
      rcases List.mem_map.mp hmapped with ⟨source, hsource, rfl⟩
      exact (ih source hsource).trans
        ((Value.nestingMembers_le_iff members _).mp le_rfl source hsource)

/-- `serde_json::from_str::<Value>`. -/
def readText (text : String) : Option Value :=
  (parse text.toList).bind (Serde.readValue floats 0)

theorem readText_canonicalize {v : Value} (hv : IntegerData v)
    (hnesting : v.nesting < Serde.recursionLimit) {text : String}
    (htext : canonicalize floats formatFinite v = some text) :
    readText floats text = some (ordered v) := by
  have hdepth : (ordered v).nesting < Serde.recursionLimit :=
    (nesting_ordered_le hv).trans_lt hnesting
  rw [canonicalize, writeCanonical_eq floats formatFinite hv,
    Option.map_some] at htext
  rw [← Option.some.inj htext, readText, String.toList_ofList, orderedText,
    JsonText.parse_print, Option.bind_some, Serde.readValue,
    Value.nesting_toDoc, Nat.zero_add, if_pos hdepth,
    ofDoc_toDoc floats hv.ordered]

/-! ## The law -/

/-- Values whose numbers are integers have one canonical text exactly when they
are the same data, and the text is read back as that data. -/
theorem canonicalize_eq_iff_sameData (a b : Value) (ha : IntegerData a)
    (hb : IntegerData b) :
    (canonicalize floats formatFinite a = canonicalize floats formatFinite b ↔
      SameData a b) ∧
    ∃ text, canonicalize floats formatFinite a = some text ∧
      (a.nesting < Serde.recursionLimit → ∃ read,
        readText floats text = some read ∧ SameData a read) := by
  constructor
  · rw [canonicalize, canonicalize, writeCanonical_eq floats formatFinite ha,
      writeCanonical_eq floats formatFinite hb, Option.map_some,
      Option.map_some, Option.some.injEq, ← ordered_eq_iff ha hb]
    constructor
    · intro htexts
      have hprints : orderedText floats a = orderedText floats b := by
        have hlists := congrArg String.toList htexts
        simpa using hlists
      have hdocs : Value.toDoc floats (ordered a) =
          Value.toDoc floats (ordered b) := by
        have hparsed := congrArg parse hprints
        rw [orderedText, orderedText, JsonText.parse_print,
          JsonText.parse_print] at hparsed
        exact Option.some.inj hparsed
      have hvalues := congrArg (Value.ofDoc floats) hdocs
      rw [ofDoc_toDoc floats ha.ordered, ofDoc_toDoc floats hb.ordered]
        at hvalues
      exact Option.some.inj hvalues
    · intro hordered
      rw [orderedText, orderedText, hordered]
  · have htext : canonicalize floats formatFinite a =
        some (String.ofList (orderedText floats a)) := by
      rw [canonicalize, writeCanonical_eq floats formatFinite ha,
        Option.map_some]
    refine ⟨_, htext, ?_⟩
    intro hnesting
    exact ⟨ordered a,
      readText_canonicalize floats formatFinite ha hnesting htext,
      sameData_ordered ha⟩

end Texts

/-! `{"b":1,"a":-2}` and `{"a":-2,"b":1}`. -/

def swappedMembers : Map :=
  [("b", .number (.posInt 1)), ("a", .number (.negInt (-2)))]

theorem integerData_swapped {members : Map}
    (hperm : members.Perm swappedMembers) : IntegerData (.object members) := by
  apply IntegerData.object
  · rw [(hperm.map Prod.fst).nodup_iff]
    decide
  · intro member hmember
    rcases List.mem_cons.mp (hperm.mem_iff.mp hmember) with rfl | hlast
    · exact .natural 1
    · rw [List.mem_singleton.mp hlast]
      exact .negative (-2) (by decide)

theorem canonicalize_eq_iff_sameData_swapped :
    (canonicalize sampleFloats (fun _ => [])
        (.object swappedMembers) =
      canonicalize sampleFloats (fun _ => [])
        (.object swappedMembers.reverse) ↔
      SameData (.object swappedMembers) (.object swappedMembers.reverse)) ∧
    ∃ text, canonicalize sampleFloats (fun _ => [])
        (.object swappedMembers) = some text ∧
      ((Value.object swappedMembers).nesting < Serde.recursionLimit →
        ∃ read, readText sampleFloats text = some read ∧
          SameData (.object swappedMembers) read) :=
  canonicalize_eq_iff_sameData sampleFloats (fun _ => [])
    (.object swappedMembers) (.object swappedMembers.reverse)
    (integerData_swapped (List.Perm.refl _))
    (integerData_swapped (List.reverse_perm _))

end Decern
