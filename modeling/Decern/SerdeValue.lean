import Mathlib.Tactic

/-!
# JSON values

The value tree of the `serde_json` crate with its default number
representation, and the operations of its object type.
-/

namespace Serde

/-- `serde_json::Number`; a finite double is its bit pattern. -/
inductive Number where
  | posInt (value : UInt64)
  | negInt (value : Int64)
  | float (bits : UInt64)
  deriving DecidableEq, Repr

/-- `serde_json::Value`; an object is its list of members. -/
inductive Value where
  | null
  | bool (value : Bool)
  | number (value : Number)
  | string (value : String)
  | array (items : List Value)
  | object (members : List (String × Value))
  deriving Repr

/-- `serde_json::Map<String, Value>`. -/
abbrev Map := List (String × Value)

namespace Map

def get (members : Map) (key : String) : Option Value :=
  members.lookup key

def containsKey (members : Map) (key : String) : Bool :=
  (members.get key).isSome

/-- Without a member.  The order of the others is kept here, and not modelled:
under `preserve_order` the last of them takes the removed one's place. -/
def remove (members : Map) (key : String) : Map :=
  members.filter fun member => member.1 != key

/-- An inserted member takes the place of the one it replaces, or the last. -/
def insert : Map → String → Value → Map
  | [], key, value => [(key, value)]
  | (name, old) :: rest, key, value =>
      if name = key then (key, value) :: rest
      else (name, old) :: insert rest key value

@[simp] theorem get_nil (key : String) : Map.get [] key = none := rfl

@[simp] theorem get_cons (name : String) (value : Value) (rest : Map)
    (key : String) :
    Map.get ((name, value) :: rest) key =
      if key = name then some value else Map.get rest key := by
  by_cases hkey : key = name
  · simp [Map.get, hkey]
  · have hne : (key == name) = false := by simpa using hkey
    simp [Map.get, List.lookup_cons, hkey, hne]

theorem get_remove (members : Map) (removed key : String) :
    (members.remove removed).get key =
      if key = removed then none else members.get key := by
  induction members with
  | nil => simp [Map.remove]
  | cons member rest ih =>
      obtain ⟨name, value⟩ := member
      by_cases hname : name = removed
      · have hdrop : Map.remove ((name, value) :: rest) removed =
            Map.remove rest removed := by
          simp [Map.remove, hname]
        rw [hdrop, ih, get_cons]
        by_cases hkey : key = removed
        · simp [hkey]
        · simp [hkey, hname]
      · have hkeep : Map.remove ((name, value) :: rest) removed =
            (name, value) :: Map.remove rest removed := by
          simp [Map.remove, hname]
        rw [hkeep, get_cons, get_cons, ih]
        by_cases hkey : key = name
        · simp [hkey, hname]
        · simp [hkey]

@[simp] theorem get_insert (members : Map) (inserted : String)
    (value : Value) (key : String) :
    (members.insert inserted value).get key =
      if key = inserted then some value else members.get key := by
  induction members with
  | nil => simp [Map.insert]
  | cons member rest ih =>
      obtain ⟨name, old⟩ := member
      rw [Map.insert]
      by_cases hname : name = inserted
      · subst hname
        by_cases hkey : key = name <;> simp [hkey]
      · rw [if_neg hname, get_cons, get_cons, ih]
        by_cases hkey : key = name
        · subst hkey
          simp [hname]
        · simp [hkey]

end Map

namespace Value

/-- `Value::get` with a string index: only an object has named members. -/
def get : Value → String → Option Value
  | .object members, key => Map.get members key
  | _, _ => none

def asStr : Value → Option String
  | .string value => some value
  | _ => none

def asObject : Value → Option Map
  | .object members => some members
  | _ => none

def isNull : Value → Bool
  | .null => true
  | _ => false

@[simp] theorem get_object (members : Map) (key : String) :
    (Value.object members).get key = members.get key := rfl

@[simp] theorem get_array (items : List Value) (key : String) :
    (Value.array items).get key = none := rfl

mutual

/-- How many arrays and objects deep the value's text nests. -/
def nesting : Value → ℕ
  | .array items => 1 + nestingItems items
  | .object members => 1 + nestingMembers members
  | _ => 0

def nestingItems : List Value → ℕ
  | [] => 0
  | value :: rest => max value.nesting (nestingItems rest)

def nestingMembers : List (String × Value) → ℕ
  | [] => 0
  | (_, value) :: rest => max value.nesting (nestingMembers rest)

end

theorem nestingMembers_le_iff (members : Map) (bound : ℕ) :
    nestingMembers members ≤ bound ↔
      ∀ member ∈ members, member.2.nesting ≤ bound := by
  induction members with
  | nil => simp [nestingMembers]
  | cons member rest ih =>
      obtain ⟨name, value⟩ := member
      rw [nestingMembers, max_le_iff, ih]
      simp

/-- Induction over a value with the hypotheses stated by membership. -/
theorem induction {motive : Value → Prop}
    (null : motive .null)
    (bool : ∀ value, motive (.bool value))
    (number : ∀ value, motive (.number value))
    (string : ∀ value, motive (.string value))
    (array : ∀ items, (∀ item ∈ items, motive item) → motive (.array items))
    (object : ∀ members, (∀ member ∈ members, motive member.2) →
      motive (.object members))
    (value : Value) : motive value := by
  refine @Value.rec motive
    (fun items => ∀ item ∈ items, motive item)
    (fun members => ∀ member ∈ members, motive member.2)
    (fun member => motive member.2)
    null bool number string array object ?_ ?_ ?_ ?_ ?_ value
  · simp
  · intro head tail hhead htail item hitem
    rcases List.mem_cons.mp hitem with rfl | hrest
    · exact hhead
    · exact htail item hrest
  · simp
  · intro head tail hhead htail member hmember
    rcases List.mem_cons.mp hmember with rfl | hrest
    · exact hhead
    · exact htail member hrest
  · intro name inner hinner
    exact hinner

end Value

end Serde
