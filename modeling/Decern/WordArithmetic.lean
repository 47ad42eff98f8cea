import Mathlib.Tactic

/-!
# Word arithmetic

What arithmetic on 64-bit words gives: nothing where it panics, the remainder
where it wraps, and the integer where nothing bounds it.  Over operands whose
result fits a word the three agree.
-/

namespace Words

def size : ℕ := 2 ^ 64

/-- The operations of one build; nothing where they panic. -/
structure Arithmetic where
  add : ℕ → ℕ → Option ℕ
  sub : ℕ → ℕ → Option ℕ
  mul : ℕ → ℕ → Option ℕ
  saturatingAdd : ℕ → ℕ → ℕ

/-- A build that checks. -/
def checked : Arithmetic where
  add a b := if a + b < size then some (a + b) else none
  sub a b := if b ≤ a then some (a - b) else none
  mul a b := if a * b < size then some (a * b) else none
  saturatingAdd a b := min (a + b) (size - 1)

/-- A build that wraps. -/
def wrapping : Arithmetic where
  add a b := some ((a + b) % size)
  sub a b := some ((a + (size - b)) % size)
  mul a b := some (a * b % size)
  saturatingAdd a b := min (a + b) (size - 1)

/-- Integers without a bound; a word below zero is none. -/
def exact : Arithmetic where
  add a b := some (a + b)
  sub a b := if b ≤ a then some (a - b) else none
  mul a b := some (a * b)
  saturatingAdd a b := a + b

/-- Right wherever the result fits. -/
structure Arithmetic.Agrees (A : Arithmetic) : Prop where
  add : ∀ {a b}, a + b < size → A.add a b = some (a + b)
  sub : ∀ {a b}, b ≤ a → a < size → A.sub a b = some (a - b)
  mul : ∀ {a b}, a * b < size → A.mul a b = some (a * b)
  saturatingAdd : ∀ {a b}, a + b < size → A.saturatingAdd a b = a + b

theorem agrees_checked : checked.Agrees where
  add hfits := if_pos hfits
  sub hle _ := if_pos hle
  mul hfits := if_pos hfits
  saturatingAdd hfits := min_eq_left (by omega)

theorem agrees_wrapping : wrapping.Agrees where
  add hfits := by
    simp only [wrapping, Nat.mod_eq_of_lt hfits]
  sub {a b} hle hfits := by
    have hsum : a + (size - b) = a - b + size := by omega
    have hless : a - b < size := by omega
    simp only [wrapping, hsum, Nat.add_mod_right, Nat.mod_eq_of_lt hless]
  mul hfits := by
    simp only [wrapping, Nat.mod_eq_of_lt hfits]
  saturatingAdd hfits := min_eq_left (by omega)

theorem agrees_exact : exact.Agrees where
  add _ := rfl
  sub hle _ := if_pos hle
  mul _ := rfl
  saturatingAdd _ := rfl

theorem add_checked_eq_none {a b : ℕ} (hover : size ≤ a + b) :
    checked.add a b = none :=
  if_neg (by omega)

/-! ## Slices -/

section Slices

variable {α : Type*} {d : List α} {k : ℕ}

/-- `d[..k]`. -/
def sliceTo (d : List α) (k : ℕ) : Option (List α) :=
  if k ≤ d.length then some (d.take k) else none

/-- `d[k..]`. -/
def sliceFrom (d : List α) (k : ℕ) : Option (List α) :=
  if k ≤ d.length then some (d.drop k) else none

theorem sliceTo_of_le (hk : k ≤ d.length) : sliceTo d k = some (d.take k) :=
  if_pos hk

theorem sliceFrom_of_le (hk : k ≤ d.length) :
    sliceFrom d k = some (d.drop k) :=
  if_pos hk

end Slices

end Words
