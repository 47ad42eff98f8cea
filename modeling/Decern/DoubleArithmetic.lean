import Decern.DoubleBits
import Decern.SerdeValue
import Mathlib.Data.Int.Log
import Mathlib.Tactic

/-!
# Rounding to doubles

The value of the double nearest to a rational, the one with an even last place
where two are nearest.  The exponent is unbounded: what is rounded here is an
integer or the difference of two doubles.
-/

namespace FiniteDouble

/-- The nearest integer, and of two the even one. -/
def nearestEven (x : ℚ) : ℤ :=
  if x - ⌊x⌋ < 1 / 2 then ⌊x⌋
  else if 1 / 2 < x - ⌊x⌋ then ⌊x⌋ + 1
  else if ⌊x⌋ % 2 = 0 then ⌊x⌋
  else ⌊x⌋ + 1

/-- The exponent of the last of the 53 places of a significand. -/
def lastPlace (x : ℚ) : ℤ :=
  Int.log 2 |x| - 52

def rounded (x : ℚ) : ℚ :=
  nearestEven (x / 2 ^ lastPlace x) * 2 ^ lastPlace x

@[simp] theorem nearestEven_intCast (n : ℤ) : nearestEven n = n := by
  simp [nearestEven]

/-- A number of whole last places is its own double. -/
theorem rounded_eq_self {x : ℚ} {places : ℤ}
    (hplaces : x = places * 2 ^ lastPlace x) : rounded x = x := by
  have hpow : (2 : ℚ) ^ lastPlace x ≠ 0 := zpow_ne_zero _ (by norm_num)
  have hquotient : x / 2 ^ lastPlace x = places := by
    rw [div_eq_iff hpow]
    exact hplaces
  rw [rounded, hquotient, nearestEven_intCast, ← hplaces]

/-- An integer of at most 53 bits is exact. -/
theorem rounded_intCast {n : ℤ} (hn : |n| < 2 ^ 53) :
    rounded (n : ℚ) = n := by
  have hplace : lastPlace (n : ℚ) ≤ 0 := by
    by_cases hzero : n = 0
    · simp [hzero, lastPlace]
    · have hlt : |(n : ℚ)| < ((2 : ℕ) : ℚ) ^ (53 : ℤ) := by
        have hcast : ((|n| : ℤ) : ℚ) < ((2 ^ 53 : ℤ) : ℚ) :=
          Int.cast_lt.mpr hn
        rw [Int.cast_abs] at hcast
        norm_num at hcast ⊢
        exact hcast
      have hpos : 0 < |(n : ℚ)| := by simpa using hzero
      have hlog : Int.log 2 |(n : ℚ)| < 53 :=
        (Int.lt_zpow_iff_log_lt (by norm_num) hpos).mp hlt
      unfold lastPlace
      omega
  obtain ⟨k, hk⟩ := Int.eq_ofNat_of_zero_le (neg_nonneg.mpr hplace)
  have hpow : (2 : ℚ) ^ lastPlace (n : ℚ) = (2 ^ k)⁻¹ := by
    rw [show lastPlace (n : ℚ) = -(k : ℤ) by omega, zpow_neg, zpow_natCast]
  apply @rounded_eq_self _ (n * 2 ^ k)
  rw [hpow]
  push_cast
  rw [mul_assoc, mul_inv_cancel₀ (by positivity), mul_one]

end FiniteDouble

namespace Serde

open FiniteDouble (rounded)

/-- `as_f64`: an integer is rounded, a double is itself. -/
def Number.asF64 : Number → Option ℚ
  | .posInt value => some (rounded (value.toNat : ℤ))
  | .negInt value => some (rounded value.toInt)
  | .float bits => (FiniteDouble.ofBits bits).map FiniteDouble.value

def Value.asF64 : Value → Option ℚ
  | .number value => value.asF64
  | _ => none

end Serde
