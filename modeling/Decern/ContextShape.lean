import Decern.CoherentMap
import Decern.SerdeValue
import Mathlib.Tactic

/-!
# Declared contexts

The shape an action's schema declares of its context, and the pruning that
keeps a context to it: what is not declared goes, at every level.
-/

namespace Decern

open Serde (Value Map)

/-- What the schema declares at one position. -/
inductive Declared where
  | record (attrs : List (String × Declared))
  | unread

namespace Declared

mutual

/-- What is left of a value; only declared records are looked into. -/
def prune : Declared → Value → Value
  | .record attrs, .object members =>
      .object (members.filterMap fun member =>
        (pruneMember attrs member.1 member.2).map fun value =>
          (member.1, value))
  | _, value => value

def pruneMember : List (String × Declared) → String → Value → Option Value
  | [], _, _ => none
  | (key, child) :: rest, name, value =>
      if name = key then some (child.prune value)
      else pruneMember rest name value

end

/-- A declared attribute takes the place of the one of its name. -/
def insertAttr : List (String × Declared) → String → Declared →
    List (String × Declared)
  | [], key, shape => [(key, shape)]
  | (name, old) :: rest, key, shape =>
      if name = key then (key, shape) :: rest
      else (name, old) :: insertAttr rest key shape

/-- An attribute's own shape, where the record declares it. -/
def attr : List (String × Declared) → String → Option Declared
  | [], _ => none
  | (key, child) :: rest, name =>
      if name = key then some child else attr rest name

mutual

/-- What either of two shapes declares; neither's unread values are looked
into. -/
def union : Declared → Declared → Declared
  | .record attrs, .record others => .record (unionAttrs attrs others)
  | _, _ => .unread

def unionAttrs : List (String × Declared) → List (String × Declared) →
    List (String × Declared)
  | attrs, [] => attrs
  | attrs, (key, shape) :: rest =>
      let merged := match attr attrs key with
        | some declared => union declared shape
        | none => shape
      unionAttrs (insertAttr attrs key merged) rest

end

/-- An action without a declaration declares nothing but the clock. -/
def onlyNow : Declared := .record [("now", .unread)]

@[simp] theorem prune_unread (value : Value) :
    Declared.unread.prune value = value := by
  cases value <;> rfl

/-- Only an object is looked into. -/
theorem prune_of_asObject_eq_none {shape : Declared} {value : Value}
    (hvalue : value.asObject = none) : shape.prune value = value := by
  cases shape with
  | unread => exact prune_unread value
  | record attrs =>
      cases value with
      | object members => cases hvalue
      | null => rfl
      | bool flag => rfl
      | number number => rfl
      | string text => rfl
      | array items => rfl

theorem pruneMember_eq (attrs : List (String × Declared)) (name : String)
    (value : Value) :
    pruneMember attrs name value =
      (attr attrs name).map fun child => child.prune value := by
  induction attrs with
  | nil => rfl
  | cons first rest ih =>
      obtain ⟨key, child⟩ := first
      rw [pruneMember, attr]
      split
      · rfl
      · exact ih

/-- A declared member is pruned by its own shape, any other is gone. -/
theorem get_prune (attrs : List (String × Declared)) (members : Map)
    (name : String) :
    ((Declared.record attrs).prune (.object members)).get name =
      (attr attrs name).bind fun child =>
        (members.get name).map child.prune := by
  rw [prune, Value.get_object]
  induction members with
  | nil => cases attr attrs name <;> rfl
  | cons member rest ih =>
      obtain ⟨key, value⟩ := member
      rw [List.filterMap_cons, pruneMember_eq]
      cases hkey : attr attrs key with
      | none =>
          simp only [Option.map_none, Map.get_cons]
          rw [ih]
          by_cases hname : name = key
          · subst hname
            simp [hkey]
          · simp [hname]
      | some child =>
          simp only [Option.map_some, Map.get_cons]
          by_cases hname : name = key
          · subst hname
            simp [hkey]
          · simp [hname, ih]

end Declared

end Decern
