import Decern.JsonData
import Decern.SerdeRead
import Mathlib.Tactic

/-!
# How deep values nest

A value read off a text nests no deeper than the text, and putting members
into an object or taking them out keeps a bound on them.
-/

namespace Serde

open JsonText (Doc)

/-! ## Objects -/

namespace Value

/-- Every member nests at most so deep. -/
def Within (bound : ℕ) (members : Map) : Prop :=
  ∀ member ∈ members, member.2.nesting ≤ bound

theorem nesting_object_le_iff (members : Map) (bound : ℕ) :
    (Value.object members).nesting ≤ 1 + bound ↔ Within bound members := by
  rw [nesting, Nat.add_le_add_iff_left]
  exact nestingMembers_le_iff members bound

theorem nestingItems_le_iff (items : List Value) (bound : ℕ) :
    nestingItems items ≤ bound ↔ ∀ item ∈ items, item.nesting ≤ bound := by
  induction items with
  | nil => simp [nestingItems]
  | cons item rest ih =>
      rw [nestingItems, max_le_iff, ih]
      simp

theorem Within.get {bound : ℕ} {members : Map} {name : String}
    {value : Value} (hmembers : Within bound members)
    (hvalue : members.get name = some value) : value.nesting ≤ bound := by
  induction members with
  | nil => cases hvalue
  | cons first rest ih =>
      rcases first with ⟨key, found⟩
      rw [Map.get_cons] at hvalue
      by_cases hkey : name = key
      · rw [if_pos hkey] at hvalue
        cases hvalue
        exact hmembers _ List.mem_cons_self
      · rw [if_neg hkey] at hvalue
        exact ih (fun member hmember =>
          hmembers member (List.mem_cons_of_mem _ hmember)) hvalue

theorem Within.remove {bound : ℕ} {members : Map}
    (hmembers : Within bound members) (key : String) :
    Within bound (members.remove key) :=
  fun member hmember => hmembers member (List.mem_filter.mp hmember).1

theorem Within.insert {bound : ℕ} {members : Map}
    (hmembers : Within bound members) (key : String) {value : Value}
    (hvalue : value.nesting ≤ bound) :
    Within bound (Map.insert members key value) := by
  induction members with
  | nil =>
      intro member hmember
      rw [List.mem_singleton.mp hmember]
      exact hvalue
  | cons first rest ih =>
      rcases first with ⟨name, old⟩
      have hrest : Within bound rest := fun member hmember =>
        hmembers member (List.mem_cons_of_mem _ hmember)
      intro member hmember
      rw [Map.insert] at hmember
      split at hmember
      case isTrue =>
        rcases List.mem_cons.mp hmember with rfl | hlater
        · exact hvalue
        · exact hrest member hlater
      case isFalse =>
        rcases List.mem_cons.mp hmember with rfl | hlater
        · exact hmembers _ List.mem_cons_self
        · exact ih hrest member hlater

theorem nesting_remove_le (value : Value) (key : String) :
    (value.remove key).nesting ≤ value.nesting := by
  cases value with
  | object members =>
      rw [remove, nesting, nesting, Nat.add_le_add_iff_left,
        nestingMembers_le_iff]
      exact Within.remove ((nestingMembers_le_iff members _).mp le_rfl) key
  | _ => exact le_rfl

theorem nesting_insert_le {value inner : Value} {bound : ℕ}
    (hvalue : value.nesting ≤ 1 + bound) (hinner : inner.nesting ≤ bound)
    (key : String) : (value.insert key inner).nesting ≤ 1 + bound := by
  cases value with
  | object members =>
      rw [insert, nesting_object_le_iff]
      exact ((nesting_object_le_iff members bound).mp hvalue).insert key hinner
  | _ => exact hvalue

end Value

/-! ## Values read off a text -/

variable (floats : FloatText)

/-- A value is no deeper than the text it is read off. -/
theorem nesting_ofDoc_le (doc : Doc) :
    ∀ value, Value.ofDoc floats doc = some value →
      value.nesting ≤ doc.nesting := by
  refine @Doc.rec
    (fun doc => ∀ value, Value.ofDoc floats doc = some value →
      value.nesting ≤ doc.nesting)
    (fun items => ∀ values, Value.ofDocs floats items = some values →
      ∀ value ∈ values, value.nesting ≤ Doc.nestingItems items)
    (fun members => ∀ earlier later bound,
      Value.ofMembers floats members earlier = some later →
      Value.Within bound earlier → Doc.nestingMembers members ≤ bound →
      Value.Within bound later)
    (fun member => ∀ value, Value.ofDoc floats member.2 = some value →
      value.nesting ≤ member.2.nesting)
    ?_ ?_ ?_ ?_ ?_ ?_ ?_ ?_ ?_ ?_ ?_ doc
  · rintro value hvalue
    cases hvalue
    exact le_rfl
  · rintro flag value hvalue
    cases hvalue
    exact le_rfl
  · rintro text value hvalue
    rcases Option.map_eq_some_iff.mp hvalue with ⟨number, _, rfl⟩
    exact Nat.zero_le _
  · rintro units value hvalue
    rcases Option.map_eq_some_iff.mp hvalue with ⟨text, _, rfl⟩
    exact Nat.zero_le _
  · rintro items ih value hvalue
    rcases Option.map_eq_some_iff.mp hvalue with ⟨values, hvalues, rfl⟩
    rw [Value.nesting, Doc.nesting, Nat.add_le_add_iff_left,
      Value.nestingItems_le_iff]
    exact ih values hvalues
  · rintro members ih value hvalue
    rcases Option.map_eq_some_iff.mp hvalue with ⟨read, hread, rfl⟩
    rw [Doc.nesting, Value.nesting_object_le_iff]
    exact ih [] read _ hread (by simp [Value.Within]) le_rfl
  · rintro values hvalues
    cases hvalues
    simp
  · rintro item rest hitem hrest values hvalues
    rw [Value.ofDocs] at hvalues
    simp only [Option.bind_eq_bind, Option.bind_eq_some_iff,
      Option.some.injEq] at hvalues
    rcases hvalues with ⟨first, hfirst, others, hothers, rfl⟩
    intro value hvalue
    rw [Doc.nestingItems]
    rcases List.mem_cons.mp hvalue with rfl | hlater
    · exact (hitem _ hfirst).trans (le_max_left _ _)
    · exact (hrest others hothers value hlater).trans (le_max_right _ _)
  · rintro earlier later bound hlater hwithin _
    cases hlater
    exact hwithin
  · rintro ⟨units, inner⟩ rest hmember hrest earlier later bound hlater
      hwithin hbound
    rw [Doc.nestingMembers, max_le_iff] at hbound
    rw [Value.ofMembers] at hlater
    simp only [Option.bind_eq_bind, Option.bind_eq_some_iff] at hlater
    rcases hlater with ⟨name, _, value, hvalue, hlater⟩
    exact hrest _ _ _ hlater
      (hwithin.insert name ((hmember value hvalue).trans hbound.1)) hbound.2
  · exact fun _ _ hdoc => hdoc

/-- A value that is read under some open brackets is within the limit there. -/
theorem nesting_lt_of_readValue {depth : ℕ} {doc : Doc} {value : Value}
    (hvalue : readValue floats depth doc = some value) :
    depth + value.nesting < recursionLimit := by
  unfold readValue at hvalue
  split at hvalue
  case isTrue hdepth =>
    have hle := nesting_ofDoc_le floats doc value hvalue
    omega
  case isFalse => cases hvalue

/-! ## What readers take of a tree -/

section Children

variable {δ α : Type} {shape : Shape δ} {index : ℕ} {name : String}

/-- A reader of a struct reads what the tree holds. -/
def Shape.Holds (shape : Shape δ) (child : δ) : Prop :=
  match shape with
  | .array items => child ∈ items
  | .object members => child ∈ members.map Prod.snd
  | _ => False

theorem holds_of_field {child : δ}
    (hfield : field shape index name = .ok (some child)) :
    shape.Holds child := by
  cases shape with
  | array items => exact List.mem_of_getElem? (Except.ok.inj hfield)
  | object members =>
      rw [field, member] at hfield
      split at hfield
      case h_1 => cases hfield
      case h_2 key found hone =>
        cases hfield
        have hmember : (key, child) ∈ members := by
          apply List.mem_of_mem_filter (p := fun member => member.1 == name)
          rw [hone]
          exact List.mem_cons_self
        exact List.mem_map.mpr ⟨_, hmember, rfl⟩
      case h_3 => cases hfield
  | _ => cases hfield

theorem required_eq_ok {read : δ → Except SerdeError α} {result : α}
    (hok : required shape index name read = .ok result) :
    ∃ child, shape.Holds child ∧ read child = .ok result := by
  unfold required at hok
  rcases bind_eq_ok.mp hok with ⟨found, hfield, hread⟩
  cases found with
  | none => cases shape <;> cases hread
  | some child => exact ⟨child, holds_of_field hfield, hread⟩

theorem defaulted_eq_ok {read : δ → Except SerdeError α}
    {default result : α}
    (hok : defaulted shape index name default read = .ok result) :
    result = default ∨ ∃ child, shape.Holds child ∧
      read child = .ok result := by
  unfold defaulted at hok
  rcases bind_eq_ok.mp hok with ⟨found, hfield, hread⟩
  cases found with
  | none =>
      cases hread
      exact Or.inl rfl
  | some child => exact Or.inr ⟨child, holds_of_field hfield, hread⟩

theorem readOption_eq_some {source : Source δ} {tree : δ}
    {read : δ → Except SerdeError α} {result : α}
    (hok : readOption source read tree = .ok (some result)) :
    read tree = .ok result := by
  unfold readOption at hok
  split at hok
  case h_1 => cases hok
  case h_2 =>
    cases hread : read tree with
    | error error =>
        rw [hread] at hok
        cases hok
    | ok found =>
        rw [hread] at hok
        cases hok
        rfl

/-- A field that may be absent, where it is there. -/
theorem defaulted_readOption_eq_some {source : Source δ}
    {read : δ → Except SerdeError α} {result : α}
    (hok : defaulted shape index name none (readOption source read) =
      .ok (some result)) :
    ∃ child, shape.Holds child ∧ read child = .ok result := by
  rcases defaulted_eq_ok hok with hnone | ⟨child, hchild, hread⟩
  · cases hnone
  · exact ⟨child, hchild, readOption_eq_some hread⟩

theorem value_of_readMap {source : Source δ} {depth : ℕ} {tree : δ}
    {members : Map} (hok : readMap source depth tree = .ok members) :
    source.value depth tree = some (.object members) := by
  unfold readMap at hok
  split at hok
  case h_1 =>
    split at hok
    case h_1 hvalue =>
      cases hok
      exact hvalue
    case h_2 => cases hok
  case h_2 => cases hok

theorem value_of_readAnyValue {source : Source δ} {depth : ℕ} {tree : δ}
    {value : Value} (hok : readAnyValue source depth tree = .ok value) :
    source.value depth tree = some value := by
  unfold readAnyValue at hok
  split at hok
  case h_1 hvalue =>
    cases hok
    exact hvalue
  case h_2 => cases hok

/-- Every element of a sequence is read off a tree. -/
theorem exists_of_mem_readVec {source : Source δ} {tree : δ}
    {read : δ → Except SerdeError α} {results : List α}
    (hok : readVec source read tree = .ok results) :
    ∀ result ∈ results, ∃ child, read child = .ok result := by
  unfold readVec at hok
  split at hok
  case h_1 items hshape =>
    clear hshape
    induction items generalizing results with
    | nil =>
        cases hok
        simp
    | cons item rest ih =>
        rw [List.mapM_cons] at hok
        rcases bind_eq_ok.mp hok with ⟨first, hfirst, hok⟩
        rcases bind_eq_ok.mp hok with ⟨others, hothers, hok⟩
        cases hok
        intro result hresult
        rcases List.mem_cons.mp hresult with rfl | hlater
        · exact ⟨item, hfirst⟩
        · exact ih hothers result hlater
  case h_2 => cases hok

end Children

/-- What a value holds is less deep than it. -/
theorem nesting_lt_of_holds {tree child : Value}
    (hchild : (valueSource.shape tree).Holds child) :
    child.nesting + 1 ≤ tree.nesting := by
  cases tree with
  | array items =>
      rw [Value.nesting, Nat.add_comm, Nat.add_le_add_iff_left]
      exact (Value.nestingItems_le_iff items _).mp le_rfl child hchild
  | object members =>
      rcases List.mem_map.mp hchild with ⟨member, hmember, rfl⟩
      rw [Value.nesting, Nat.add_comm, Nat.add_le_add_iff_left]
      exact (Value.nestingMembers_le_iff members _).mp le_rfl member hmember
  | _ => exact hchild.elim

end Serde
