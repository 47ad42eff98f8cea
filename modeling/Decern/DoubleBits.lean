import Mathlib.Tactic

/-!
# Doubles as bits

A finite double of the 64-bit interchange format is its pattern of sign,
exponent and fraction.  The pattern determines the number, and every number
but zero has one pattern.
-/

/-- A finite double: its exponent is not the one of infinity. -/
structure FiniteDouble where
  bits : UInt64
  finite : bits.toNat / 2 ^ 52 % 2 ^ 11 ≠ 2 ^ 11 - 1
  deriving DecidableEq, Repr

namespace FiniteDouble

/-- A pattern that is not an infinity and not a NaN. -/
def ofBits (bits : UInt64) : Option FiniteDouble :=
  if hfinite : bits.toNat / 2 ^ 52 % 2 ^ 11 ≠ 2 ^ 11 - 1 then
    some { bits := bits, finite := hfinite }
  else none

def negative (x : FiniteDouble) : Bool :=
  decide (2 ^ 63 ≤ x.bits.toNat)

def exponent (x : FiniteDouble) : ℕ :=
  x.bits.toNat / 2 ^ 52 % 2 ^ 11

def fraction (x : FiniteDouble) : ℕ :=
  x.bits.toNat % 2 ^ 52

/-- With the leading bit that a subnormal lacks. -/
def significand (x : FiniteDouble) : ℕ :=
  if x.exponent = 0 then x.fraction else 2 ^ 52 + x.fraction

/-- The power of two one unit of the significand stands for, from `-1074`. -/
def shift (x : FiniteDouble) : ℕ :=
  x.exponent - 1

def magnitude (x : FiniteDouble) : ℚ :=
  x.significand * 2 ^ ((x.shift : ℤ) - 1074)

def value (x : FiniteDouble) : ℚ :=
  if x.negative then -x.magnitude else x.magnitude

/-- `-x`: the sign bit is the other one. -/
def neg (x : FiniteDouble) : FiniteDouble where
  bits := UInt64.ofNat
    (if x.negative then x.bits.toNat - 2 ^ 63 else x.bits.toNat + 2 ^ 63)
  finite := by
    have hbits := x.bits.toNat_lt
    have hfinite := x.finite
    rw [UInt64.toNat_ofNat']
    unfold negative
    split <;> simp_all <;> omega

def abs (x : FiniteDouble) : FiniteDouble :=
  if x.value < 0 then x.neg else x

theorem bits_neg (x : FiniteDouble) :
    x.neg.bits.toNat =
      if x.negative then x.bits.toNat - 2 ^ 63
      else x.bits.toNat + 2 ^ 63 := by
  have hbits := x.bits.toNat_lt
  unfold neg
  rw [UInt64.toNat_ofNat']
  unfold negative
  split <;> simp_all <;> omega

@[simp] theorem negative_neg (x : FiniteDouble) :
    x.neg.negative = !x.negative := by
  have hbits := x.bits.toNat_lt
  unfold negative
  rw [bits_neg]
  unfold negative
  split <;> simp_all
  omega

@[simp] theorem exponent_neg (x : FiniteDouble) :
    x.neg.exponent = x.exponent := by
  have hbits := x.bits.toNat_lt
  unfold exponent
  rw [bits_neg]
  unfold negative
  split <;> simp_all <;> omega

@[simp] theorem fraction_neg (x : FiniteDouble) :
    x.neg.fraction = x.fraction := by
  unfold fraction
  rw [bits_neg]
  unfold negative
  split <;> simp_all <;> omega

@[simp] theorem magnitude_neg (x : FiniteDouble) :
    x.neg.magnitude = x.magnitude := by
  simp [magnitude, significand, shift]

@[simp] theorem value_neg (x : FiniteDouble) : x.neg.value = -x.value := by
  cases hsign : x.negative <;> simp [value, hsign]

theorem abs_of_neg {x : FiniteDouble} (hx : x.value < 0) :
    x.abs = x.neg :=
  if_pos hx

theorem abs_of_pos {x : FiniteDouble} (hx : 0 < x.value) : x.abs = x :=
  if_neg hx.not_gt

theorem ofBits_bits (x : FiniteDouble) : ofBits x.bits = some x :=
  dif_pos x.finite

theorem bits_of_ofBits {bits : UInt64} {x : FiniteDouble}
    (hx : ofBits bits = some x) : bits = x.bits := by
  unfold ofBits at hx
  split at hx
  · rw [← Option.some.inj hx]
  · cases hx

theorem value_eq_abs (x : FiniteDouble) :
    x.value = if x.value < 0 then -x.abs.value else x.abs.value := by
  unfold abs
  split
  · rw [value_neg, neg_neg]
  · rfl

theorem magnitude_nonneg (x : FiniteDouble) : 0 ≤ x.magnitude := by
  unfold magnitude
  positivity

theorem bits_eq (x : FiniteDouble) :
    x.bits.toNat = (if x.negative then 2 ^ 63 else 0) +
      x.exponent * 2 ^ 52 + x.fraction := by
  have hbits := x.bits.toNat_lt
  unfold exponent fraction negative
  split <;> simp_all <;> omega

theorem fraction_lt (x : FiniteDouble) : x.fraction < 2 ^ 52 :=
  Nat.mod_lt _ (by norm_num)

theorem significand_lt (x : FiniteDouble) : x.significand < 2 ^ 53 := by
  have hfraction := x.fraction_lt
  unfold significand
  split <;> omega

theorem significand_ge {x : FiniteDouble} (hx : 0 < x.shift) :
    2 ^ 52 ≤ x.significand := by
  have hne : x.exponent ≠ 0 := by
    unfold shift at hx
    omega
  unfold significand
  rw [if_neg hne]
  omega

/-- Of two magnitudes with different shifts the one with the larger shift is
larger. -/
theorem magnitude_lt_of_shift_lt {x y : FiniteDouble}
    (hshift : x.shift < y.shift) : x.magnitude < y.magnitude := by
  have htwo : (2 : ℚ) ≠ 0 := by norm_num
  have hpower : (0 : ℚ) < 2 ^ ((x.shift : ℤ) - 1074) := by positivity
  have hupper : (x.significand : ℚ) < 2 ^ 53 := by
    exact_mod_cast x.significand_lt
  have hlower : (2 : ℚ) ^ 52 ≤ y.significand := by
    exact_mod_cast significand_ge (x := y) (by omega)
  have hpowers : (2 : ℚ) * 2 ^ ((x.shift : ℤ) - 1074) ≤
      2 ^ ((y.shift : ℤ) - 1074) := by
    rw [← zpow_one_add₀ htwo]
    exact zpow_le_zpow_right₀ (by norm_num) (by omega)
  unfold magnitude
  calc (x.significand : ℚ) * 2 ^ ((x.shift : ℤ) - 1074)
      < 2 ^ 53 * 2 ^ ((x.shift : ℤ) - 1074) :=
        mul_lt_mul_of_pos_right hupper hpower
    _ = 2 ^ 52 * (2 * 2 ^ ((x.shift : ℤ) - 1074)) := by ring
    _ ≤ 2 ^ 52 * 2 ^ ((y.shift : ℤ) - 1074) :=
        mul_le_mul_of_nonneg_left hpowers (by norm_num)
    _ ≤ y.significand * 2 ^ ((y.shift : ℤ) - 1074) :=
        mul_le_mul_of_nonneg_right hlower (by positivity)

theorem magnitude_inj {x y : FiniteDouble}
    (hmagnitude : x.magnitude = y.magnitude) :
    x.exponent = y.exponent ∧ x.fraction = y.fraction := by
  have hshift : x.shift = y.shift := by
    rcases lt_trichotomy x.shift y.shift with hlt | heq | hgt
    · exact absurd hmagnitude (magnitude_lt_of_shift_lt hlt).ne
    · exact heq
    · exact absurd hmagnitude (magnitude_lt_of_shift_lt hgt).ne'
  have hpower : (2 : ℚ) ^ ((y.shift : ℤ) - 1074) ≠ 0 :=
    zpow_ne_zero _ (by norm_num)
  have hsignificand : x.significand = y.significand := by
    unfold magnitude at hmagnitude
    rw [hshift] at hmagnitude
    exact_mod_cast mul_right_cancel₀ hpower hmagnitude
  have hx := x.fraction_lt
  have hy := y.fraction_lt
  unfold significand at hsignificand
  unfold shift at hshift
  split at hsignificand <;> split at hsignificand <;> omega

/-- A number other than zero is one double. -/
theorem value_inj {x y : FiniteDouble} (hvalue : x.value = y.value)
    (hx : x.value ≠ 0) : x = y := by
  have hmagnitude : x.magnitude ≠ 0 := by
    intro hzero
    apply hx
    simp [value, hzero]
  have hparts : x.negative = y.negative ∧ x.magnitude = y.magnitude := by
    have hxpos := x.magnitude_nonneg.lt_of_ne' hmagnitude
    have hypos := y.magnitude_nonneg
    unfold value at hvalue
    cases hxs : x.negative <;> cases hys : y.negative <;>
      simp only [hxs, hys, if_true, if_false, Bool.false_eq_true] at hvalue
    · exact ⟨rfl, hvalue⟩
    · linarith
    · linarith
    · exact ⟨rfl, neg_injective hvalue⟩
  have hbits : x.bits = y.bits := by
    apply UInt64.toNat_inj.mp
    have hrest := magnitude_inj hparts.2
    rw [x.bits_eq, y.bits_eq, hparts.1, hrest.1, hrest.2]
  cases x
  cases y
  cases hbits
  rfl

end FiniteDouble
