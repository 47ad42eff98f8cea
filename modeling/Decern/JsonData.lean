import Decern.SerdeValue
import Mathlib.Tactic

/-!
# Values as data

An object's member changed or taken out of a value, and values that are the
same data: objects by their members, in whatever order these stand.
-/

namespace Serde

namespace Value

/-- An object without a member, up to the order of the others; anything else
as it is. -/
def remove : Value → String → Value
  | .object members, key => .object (Map.remove members key)
  | value, _ => value

/-- An object with a member; anything else as it is. -/
def insert : Value → String → Value → Value
  | .object members, key, value => .object (Map.insert members key value)
  | whole, _, _ => whole

theorem get_remove (value : Value) (removed key : String) :
    (value.remove removed).get key =
      if key = removed then none else value.get key := by
  cases value with
  | object members => exact Map.get_remove members removed key
  | null => simp [remove, get]
  | bool flag => simp [remove, get]
  | number number => simp [remove, get]
  | string text => simp [remove, get]
  | array items => simp [remove, get]

theorem get_remove_ne {removed key : String} (hne : key ≠ removed)
    (value : Value) : (value.remove removed).get key = value.get key := by
  rw [get_remove, if_neg hne]

theorem remove_comm (value : Value) (first second : String) :
    (value.remove first).remove second =
      (value.remove second).remove first := by
  cases value with
  | object members =>
      simp only [remove, Map.remove, List.filter_filter]
      congr 2
      funext member
      exact Bool.and_comm _ _
  | null => rfl
  | bool flag => rfl
  | number number => rfl
  | string text => rfl
  | array items => rfl

/-- Taking out what is not there changes nothing. -/
theorem remove_of_get_eq_none {value : Value} {key : String}
    (hnone : value.get key = none) : value.remove key = value := by
  cases value with
  | object members =>
      have hkeys : ∀ member ∈ members, (member.1 != key) = true := by
        rw [get_object] at hnone
        induction members with
        | nil => simp
        | cons first rest ih =>
            obtain ⟨name, value⟩ := first
            rw [Map.get_cons] at hnone
            split_ifs at hnone with hname
            rw [List.forall_mem_cons]
            exact ⟨by simpa using Ne.symm hname, ih hnone⟩
      simp only [remove, Map.remove, List.filter_eq_self.mpr hkeys]
  | null => rfl
  | bool flag => rfl
  | number number => rfl
  | string text => rfl
  | array items => rfl

theorem get_insert (members : Map) (inserted : String) (value : Value)
    (key : String) :
    ((Value.object members).insert inserted value).get key =
      if key = inserted then some value else members.get key :=
  Map.get_insert members inserted value key

@[simp] theorem asObject_remove (value : Value) (key : String) :
    (value.remove key).asObject =
      value.asObject.map fun members => Map.remove members key := by
  cases value <;> rfl

@[simp] theorem asObject_insert (whole : Value) (key : String)
    (value : Value) :
    (whole.insert key value).asObject =
      whole.asObject.map fun members => Map.insert members key value := by
  cases whole <;> rfl

/-- The same data. -/
inductive Same : Value → Value → Prop
  | refl (value : Value) : Same value value
  | array (items others : List Value) :
      items.length = others.length →
      (∀ (index : ℕ) (item other : Value), items[index]? = some item →
        others[index]? = some other → Same item other) →
      Same (.array items) (.array others)
  | object (members others : Map) :
      (∀ key, (members.get key).isSome = (others.get key).isSome) →
      (∀ (key : String) (value other : Value),
        members.get key = some value → others.get key = some other →
        Same value other) →
      Same (.object members) (.object others)

namespace Same

variable {value other : Value}

theorem asStr (hsame : Same value other) : value.asStr = other.asStr := by
  cases hsame <;> rfl

theorem isNull (hsame : Same value other) : value.isNull = other.isNull := by
  cases hsame <;> rfl

theorem isSome_asObject (hsame : Same value other) :
    value.asObject.isSome = other.asObject.isSome := by
  cases hsame <;> rfl

theorem isSome_get (hsame : Same value other) (key : String) :
    (value.get key).isSome = (other.get key).isSome := by
  cases hsame with
  | refl => rfl
  | array => rfl
  | object members others hkeys _ => exact hkeys key

theorem get (hsame : Same value other) {key : String} {item found : Value}
    (hitem : value.get key = some item) (hfound : other.get key = some found) :
    Same item found := by
  cases hsame with
  | refl =>
      rw [hitem, Option.some.injEq] at hfound
      exact hfound ▸ .refl item
  | array => cases hitem
  | object members others _ hmembers =>
      exact hmembers key item found hitem hfound

end Same

/-- Both absent, or the same data. -/
def SameOption : Option Value → Option Value → Prop
  | none, none => True
  | some value, some other => Same value other
  | _, _ => False

theorem SameOption.cases {found given : Option Value}
    (hsame : SameOption found given) :
    (found = none ∧ given = none) ∨ ∃ value other, found = some value ∧
      given = some other ∧ Same value other := by
  cases found with
  | none =>
      cases given with
      | none => exact Or.inl ⟨rfl, rfl⟩
      | some other => exact hsame.elim
  | some value =>
      cases given with
      | none => exact hsame.elim
      | some other => exact Or.inr ⟨value, other, rfl, rfl, hsame⟩

theorem Same.sameOption_get {value other : Value} (hsame : Same value other)
    (key : String) : SameOption (value.get key) (other.get key) := by
  have hkeys := hsame.isSome_get key
  cases hvalue : value.get key with
  | none =>
      cases hother : other.get key with
      | none => trivial
      | some found => simp [hvalue, hother] at hkeys
  | some item =>
      cases hother : other.get key with
      | none => simp [hvalue, hother] at hkeys
      | some found => exact hsame.get hvalue hother

theorem same_object {members others : Map}
    (hmembers : ∀ key, SameOption (members.get key) (others.get key)) :
    Same (.object members) (.object others) := by
  refine .object _ _ ?_ ?_
  · intro key
    have hkey := hmembers key
    revert hkey
    cases members.get key <;> cases others.get key <;> simp [SameOption]
  · intro key value other hvalue hother
    have hkey := hmembers key
    rwa [hvalue, hother] at hkey

end Value

end Serde
