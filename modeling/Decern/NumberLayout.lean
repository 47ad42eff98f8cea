import Decern.DecimalText
import Decern.DoubleBits
import Decern.WordArithmetic
import Mathlib.Tactic

/-!
# Number layout

The digits of a double come from a printer with a layout of its own; they are
laid out again as ECMAScript does.  The text is ASCII, one byte a character.
-/

namespace Decern

open DecimalText
open Words (sliceTo sliceFrom)

/-! ## Words and strings of the source -/

/-- A signed 32-bit result; arithmetic stops where it does not fit. -/
def i32 (value : ℤ) : Option ℤ :=
  if -2147483648 ≤ value ∧ value ≤ 2147483647 then some value else none

/-- `as i32`. -/
def asI32 (length : ℕ) : ℤ :=
  (length : ℤ).bmod (2 ^ 32)

/-- `as usize`. -/
def asUsize (value : ℤ) : ℕ :=
  (value % 2 ^ 64).toNat

/-- `"0".repeat(count)`, which stops at a length no allocation has. -/
def zeros (count : ℕ) : Option (List Char) :=
  if count < 2 ^ 63 then some (List.replicate count '0') else none

def splitOnce (separator : Char) (text : List Char) :
    Option (List Char × List Char) :=
  match text.dropWhile (· != separator) with
  | [] => none
  | _ :: rest => some (text.takeWhile (· != separator), rest)

/-- The digits `i32` parses after the sign. -/
def parseDigits (text : List Char) : Option ℕ :=
  if text ≠ [] ∧ text.all Char.isDigit then some (number text) else none

def parseI32 (text : List Char) : Option ℤ :=
  match text with
  | '-' :: rest => (parseDigits rest).bind fun value => i32 (-value)
  | '+' :: rest => (parseDigits rest).bind fun value => i32 value
  | _ => (parseDigits text).bind fun value => i32 value

/-! ## The function -/

def splitExponent (printed : List Char) : Option (List Char × ℤ) :=
  match splitOnce 'e' printed with
  | some (mantissa, exponent) =>
      (parseI32 exponent).map fun exponent => (mantissa, exponent)
  | none => some (printed, 0)

/-- The significant digits of a printed text, and `n`. -/
def significantDigits (printed : List Char) :
    Option (List Char × ℤ) := do
  let (mantissa, exponent) ← splitExponent printed
  let (intDigits, fracDigits) := (splitOnce '.' mantissa).getD (mantissa, [])
  let written := intDigits ++ fracDigits
  let leading := written.length - (written.dropWhile (· == '0')).length
  let stripped ← sliceFrom written leading
  let digits := stripped.rdropWhile (· == '0')
  let shifted ← i32 (exponent + asI32 intDigits.length)
  let n ← i32 (shifted - asI32 leading)
  some (digits, n)

def exponentForm (digits : List Char) (n k : ℤ) : Option (List Char) := do
  let sign := if n > 0 then '+' else '-'
  let before ← i32 (n - 1)
  let magnitude ← i32 before.natAbs
  let power := 'e' :: sign :: Nat.toDigits 10 magnitude.toNat
  if k = 1 then some (digits ++ power)
  else do
    let front ← sliceTo digits 1
    let back ← sliceFrom digits 1
    some (front ++ '.' :: back ++ power)

def layOut (digits : List Char) (n : ℤ) : Option (List Char) :=
  let k := asI32 digits.length
  if k ≤ n ∧ n ≤ 21 then do
    let width ← i32 (n - k)
    let padding ← zeros (asUsize width)
    some (digits ++ padding)
  else if 0 < n ∧ n ≤ 21 then do
    let front ← sliceTo digits (asUsize n)
    let back ← sliceFrom digits (asUsize n)
    some (front ++ '.' :: back)
  else if -6 < n ∧ n ≤ 0 then do
    let width ← i32 (-n)
    let padding ← zeros (asUsize width)
    some ('0' :: '.' :: padding ++ digits)
  else exponentForm digits n k

/-- What `ecmascript_number` makes of a positive double, or nothing where it
panics. -/
def relayout (printed : List Char) : Option (List Char) := do
  let (digits, n) ← significantDigits printed
  layOut digits n

variable (formatFinite : FiniteDouble → List Char)

def ecmascriptNumber (x : FiniteDouble) : Option (List Char) :=
  if x.value = 0 then some ['0']
  else if x.value < 0 then (ecmascriptNumber x.neg).map ('-' :: ·)
  else relayout (formatFinite x)
termination_by if x.value < 0 then 1 else 0
decreasing_by
  rename_i hnegative
  rw [if_pos hnegative, if_neg (by simp; linarith)]
  norm_num

/-! ## The parts of a spelling -/

theorem i32_eq_some {value : ℤ} (hlower : -2147483648 ≤ value)
    (hupper : value ≤ 2147483647) : i32 value = some value :=
  if_pos ⟨hlower, hupper⟩

theorem asI32_eq {length : ℕ} (hlength : length < 2 ^ 31) :
    asI32 length = length := by
  unfold asI32
  apply Int.bmod_eq_of_le <;> omega

theorem asUsize_eq {value : ℤ} (hlower : 0 ≤ value)
    (hupper : value < 2 ^ 64) : asUsize value = value.toNat := by
  unfold asUsize
  rw [Int.emod_eq_of_lt hlower hupper]

theorem zeros_eq {count : ℕ} (hcount : count < 2 ^ 63) :
    zeros count = some (List.replicate count '0') :=
  if_pos hcount

theorem splitOnce_append {separator : Char} {before : List Char}
    (hbefore : separator ∉ before) (after : List Char) :
    splitOnce separator (before ++ separator :: after) =
      some (before, after) := by
  have hkept : ∀ c ∈ before, (c != separator) = true := by
    intro c hc
    simpa using ne_of_mem_of_not_mem hc hbefore
  unfold splitOnce
  rw [List.dropWhile_append_of_pos hkept, List.takeWhile_append_of_pos hkept]
  simp

theorem splitOnce_none {separator : Char} {text : List Char}
    (htext : separator ∉ text) : splitOnce separator text = none := by
  have hkept : ∀ c ∈ text, (c != separator) = true := by
    intro c hc
    simpa using ne_of_mem_of_not_mem hc htext
  unfold splitOnce
  rw [List.dropWhile_eq_nil_iff.mpr hkept]

theorem parseDigits_eq {text : List Char} (hdigits : AllDigits text)
    (hne : text ≠ []) : parseDigits text = some (number text) :=
  if_pos ⟨hne, List.all_eq_true.mpr hdigits⟩

theorem parseI32_plus (rest : List Char) :
    parseI32 ('+' :: rest) =
      (parseDigits rest).bind fun value => i32 value := rfl

theorem parseI32_minus (rest : List Char) :
    parseI32 ('-' :: rest) =
      (parseDigits rest).bind fun value => i32 (-value) := rfl

theorem parseI32_unsigned {c : Char} {rest : List Char}
    (hc : c.isDigit = true) :
    parseI32 (c :: rest) =
      (parseDigits (c :: rest)).bind fun value => i32 value := by
  have hplus : c ≠ '+' := by
    intro hplus
    simp [hplus] at hc
  have hminus : c ≠ '-' := by
    intro hminus
    simp [hminus] at hc
  unfold parseI32
  split
  · rename_i heq
    exact absurd (List.cons.inj heq).1 hminus
  · rename_i heq
    exact absurd (List.cons.inj heq).1 hplus
  · rfl

theorem parseI32_text {e : Exponent} (hlower : -2147483648 ≤ e.value)
    (hupper : e.value ≤ 2147483647) : parseI32 e.text = some e.value := by
  have hdigits := parseDigits_eq e.allDigits e.nonempty
  have hvalue := i32_eq_some hlower hupper
  unfold Exponent.text
  cases hsign : e.sign with
  | some sign =>
      cases sign with
      | plus =>
          have heq : e.value = number e.digits := by
            simp [Exponent.value, hsign]
          rw [Option.map_some, Option.getD_some, Sign.text,
            List.singleton_append, parseI32_plus, hdigits, Option.bind_some,
            ← heq, hvalue]
      | minus =>
          have heq : e.value = -(number e.digits : ℤ) := by
            simp [Exponent.value, hsign]
          rw [Option.map_some, Option.getD_some, Sign.text,
            List.singleton_append, parseI32_minus, hdigits, Option.bind_some,
            ← heq, hvalue]
  | none =>
      have heq : e.value = number e.digits := by
        simp [Exponent.value, hsign]
      rw [Option.map_none, Option.getD_none, List.nil_append]
      cases hrow : e.digits with
      | nil => exact absurd hrow e.nonempty
      | cons c rest =>
          rw [parseI32_unsigned (e.allDigits c (by simp [hrow])), ← hrow,
            hdigits, Option.bind_some, ← heq, hvalue]

theorem not_mem_mantissaText {s : Spelling} :
    'e' ∉ s.mantissaText := by
  have hwhole : 'e' ∉ s.whole := by
    intro hmem
    exact absurd (s.wholeDigits 'e' hmem) (by decide)
  intro hmem
  rcases List.mem_append.mp hmem with hmem | hmem
  · exact hwhole hmem
  · cases hfraction : s.fraction with
    | none => simp [hfraction] at hmem
    | some row =>
        rw [hfraction] at hmem
        have hrow : 'e' ∈ row := by simpa using hmem
        exact absurd (s.fractionDigits row (by simp [hfraction]) 'e' hrow)
          (by decide)

theorem splitExponent_text {s : Spelling} (hlower : -2147483648 ≤ s.power)
    (hupper : s.power ≤ 2147483647) :
    splitExponent s.text = some (s.mantissaText, s.power) := by
  unfold splitExponent Spelling.text
  cases hexponent : s.exponent with
  | none =>
      have hpower : s.power = 0 := by simp [Spelling.power, hexponent]
      rw [Option.map_none, Option.getD_none, List.append_nil,
        splitOnce_none not_mem_mantissaText, hpower]
  | some e =>
      have hpower : s.power = e.value := by
        simp [Spelling.power, hexponent]
      rw [hpower] at hlower hupper
      rw [Option.map_some, Option.getD_some,
        splitOnce_append not_mem_mantissaText, hpower]
      simp only
      rw [parseI32_text hlower hupper, Option.map_some]

theorem splitOnce_mantissaText (s : Spelling) :
    (splitOnce '.' s.mantissaText).getD (s.mantissaText, []) =
      (s.whole, s.fraction.getD []) := by
  have hwhole : '.' ∉ s.whole := by
    intro hmem
    exact absurd (s.wholeDigits '.' hmem) (by decide)
  unfold Spelling.mantissaText
  cases hfraction : s.fraction with
  | none => simp [splitOnce_none hwhole]
  | some row => simp [splitOnce_append hwhole]

/-! ## What the printer may print -/

/-- A text that spells `0.digits × 10 ^ point`, of a size the function's
32-bit arithmetic is made for. -/
structure Printed (text digits : List Char) (point : ℤ) : Prop where
  spelled : ∃ s : Spelling, s.text = text ∧ s.value = scaled digits point
  significant : Significant digits
  short : text.length < 2 ^ 30
  near : |point| < 2 ^ 30

variable {text digits : List Char} {point : ℤ}

theorem length_digits_le (s : Spelling) :
    s.digits.length ≤ s.text.length := by
  unfold Spelling.digits Spelling.text Spelling.mantissaText
  cases s.fraction <;> simp
  omega

theorem significantDigits_eq (hprinted : Printed text digits point) :
    significantDigits text = some (digits, point) := by
  rcases hprinted.spelled with ⟨s, rfl, hvalue⟩
  have hnear := abs_lt.mp hprinted.near
  have hshort := hprinted.short
  have hstripped := Spelling.stripZeros_digits hprinted.significant hvalue
  have hlength := length_digits_le s
  have hsplit : (s.digits.takeWhile (· == '0')).length +
      (s.digits.dropWhile (· == '0')).length = s.digits.length := by
    rw [← List.length_append, List.takeWhile_append_dropWhile]
  have hwhole : s.whole.length ≤ s.digits.length := by
    simp [Spelling.digits]
  have hleading : s.digits.length - (s.digits.dropWhile (· == '0')).length =
      (s.digits.takeWhile (· == '0')).length := by
    omega
  have hslice : sliceFrom s.digits
      (s.digits.takeWhile (· == '0')).length =
        some (s.digits.dropWhile (· == '0')) := by
    have hdrop : (s.digits.takeWhile (· == '0') ++
        s.digits.dropWhile (· == '0')).drop
          (s.digits.takeWhile (· == '0')).length =
        s.digits.dropWhile (· == '0') := List.drop_left
    rw [List.takeWhile_append_dropWhile] at hdrop
    rw [Words.sliceFrom_of_le (by omega), hdrop]
  have hpower : -2147483648 ≤ s.power ∧ s.power ≤ 2147483647 := by omega
  unfold significantDigits
  rw [splitExponent_text hpower.1 hpower.2]
  simp only [Option.bind_eq_bind, Option.bind_some, splitOnce_mantissaText]
  rw [← Spelling.digits, hleading, hslice, Option.bind_some,
    asI32_eq (by omega), asI32_eq (by omega),
    i32_eq_some (by omega) (by omega), Option.bind_some, hstripped.2,
    i32_eq_some (by omega) (by omega), Option.bind_some,
    ← stripZeros, hstripped.1]

theorem Printed.length_lt (hprinted : Printed text digits point) :
    digits.length < 2 ^ 30 := by
  rcases hprinted.spelled with ⟨s, rfl, hvalue⟩
  have hstripped := Spelling.stripZeros_digits hprinted.significant hvalue
  have hsublist : (stripZeros s.digits).Sublist s.digits :=
    (List.rdropWhile_prefix _ _).sublist.trans (List.dropWhile_sublist _)
  have hlength := hsublist.length_le
  rw [hstripped.1] at hlength
  exact (hlength.trans (length_digits_le s)).trans_lt hprinted.short

/-! ## The layout -/

theorem exponentForm_eq (hlength : digits ≠ [])
    (hnear : |point| < 2 ^ 30) :
    exponentForm digits point digits.length =
      some (exponentLayout digits point) := by
  have hbounds := abs_lt.mp hnear
  have hpos : 1 ≤ digits.length := List.length_pos_iff.mpr hlength
  unfold exponentForm exponentLayout
  rw [i32_eq_some (by omega) (by omega)]
  simp only [Option.bind_eq_bind, Option.bind_some]
  rw [i32_eq_some (by omega) (by omega)]
  simp only [Option.bind_some, Int.toNat_natCast, gt_iff_lt]
  by_cases hone : digits.length = 1
  · simp [hone, List.take_of_length_le]
  · have hcast : ¬((digits.length : ℤ) = 1) := by exact_mod_cast hone
    rw [if_neg hcast, if_neg hone, Words.sliceTo_of_le hpos,
      Words.sliceFrom_of_le hpos]
    simp

theorem layOut_eq (hnonempty : digits ≠ [])
    (hlength : digits.length < 2 ^ 30) (hnear : |point| < 2 ^ 30) :
    layOut digits point = some (layout digits point) := by
  have hbounds := abs_lt.mp hnear
  unfold layOut layout
  rw [asI32_eq (by omega)]
  dsimp only
  split
  case isTrue hpadded =>
    rw [i32_eq_some (by omega) (by omega)]
    simp only [Option.bind_eq_bind, Option.bind_some]
    rw [asUsize_eq (by omega) (by omega), zeros_eq (by omega),
      Option.bind_some]
  case isFalse hpadded =>
    split
    case isTrue hinside =>
      -- the point is before the last digit, so both slices are inside
      have hpoint : point.toNat ≤ digits.length := by omega
      rw [asUsize_eq (by omega) (by omega), Words.sliceTo_of_le hpoint,
        Words.sliceFrom_of_le hpoint]
      simp
    case isFalse hinside =>
      split
      case isTrue hsmall =>
        rw [i32_eq_some (by omega) (by omega)]
        simp only [Option.bind_eq_bind, Option.bind_some]
        rw [asUsize_eq (by omega) (by omega), zeros_eq (by omega),
          Option.bind_some]
      case isFalse hsmall => exact exponentForm_eq hnonempty hnear

theorem relayout_eq (hprinted : Printed text digits point) :
    relayout text = some (layout digits point) := by
  unfold relayout
  rw [significantDigits_eq hprinted, Option.bind_eq_bind, Option.bind_some]
  exact layOut_eq hprinted.significant.nonempty hprinted.length_lt
    hprinted.near

theorem ecmascriptNumber_zero {x : FiniteDouble} (hx : x.value = 0) :
    ecmascriptNumber formatFinite x = some ['0'] := by
  rw [ecmascriptNumber, if_pos hx]

theorem ecmascriptNumber_pos {x : FiniteDouble} (hx : 0 < x.value) :
    ecmascriptNumber formatFinite x = relayout (formatFinite x) := by
  rw [ecmascriptNumber, if_neg hx.ne', if_neg hx.not_gt]

theorem ecmascriptNumber_neg {x : FiniteDouble} (hx : x.value < 0) :
    ecmascriptNumber formatFinite x =
      (relayout (formatFinite x.neg)).map ('-' :: ·) := by
  have hneg : 0 < x.neg.value := by
    rw [x.value_neg]
    linarith
  rw [ecmascriptNumber, if_neg hx.ne, if_pos hx, ecmascriptNumber_pos _ hneg]

/-- Whatever layout the printer gives the digits of a double's magnitude, the
function returns, and returns the canonical layout of that number under the
double's sign. -/
theorem ecmascriptNumber_layout (x : FiniteDouble) (digits : List Char)
    (point : ℤ) (hx : x.value ≠ 0)
    (hprinted : Printed (formatFinite x.abs) digits point) :
    ecmascriptNumber formatFinite x =
        some ((if x.value < 0 then ['-'] else []) ++ layout digits point) ∧
      ∃ s : Spelling, s.text = layout digits point ∧
        s.value = scaled digits point := by
  refine ⟨?_, spelled_layout hprinted.significant point⟩
  rcases lt_or_gt_of_ne hx with hnegative | hpositive
  · rw [FiniteDouble.abs_of_neg hnegative] at hprinted
    rw [ecmascriptNumber_neg formatFinite hnegative, relayout_eq hprinted,
      if_pos hnegative]
    rfl
  · rw [FiniteDouble.abs_of_pos hpositive] at hprinted
    rw [ecmascriptNumber_pos formatFinite hpositive, relayout_eq hprinted,
      if_neg hpositive.not_gt]
    rfl

/-- `-1.5`. -/
def minusThreeHalves : FiniteDouble where
  bits := 0xBFF8000000000000
  finite := by decide

theorem minusThreeHalves_value : minusThreeHalves.value = -3 / 2 := by
  have hbits : minusThreeHalves.bits.toNat = 13832806255468478464 := rfl
  norm_num [FiniteDouble.value, FiniteDouble.negative,
    FiniteDouble.magnitude, FiniteDouble.significand, FiniteDouble.shift,
    FiniteDouble.exponent, FiniteDouble.fraction, hbits]

theorem printed_threeHalves : Printed ['1', '.', '5'] ['1', '5'] 1 where
  spelled := by
    let s : Spelling :=
      { whole := ['1']
        fraction := some ['5']
        exponent := none
        wholeDigits := by simp [AllDigits]
        fractionDigits := by simp [AllDigits] }
    refine ⟨s, rfl, ?_⟩
    rw [s.value_eq_scaled]
    rfl
  significant :=
    { allDigits := by simp [AllDigits]
      nonempty := by simp
      head := by simp
      last := by simp }
  short := by norm_num
  near := by norm_num

theorem ecmascriptNumber_layout_minusThreeHalves :
    ecmascriptNumber (fun _ => ['1', '.', '5']) minusThreeHalves =
        some ['-', '1', '.', '5'] ∧
      ∃ s : Spelling, s.text = ['1', '.', '5'] ∧
        s.value = scaled ['1', '5'] 1 := by
  have hnegative : minusThreeHalves.value < 0 := by
    rw [minusThreeHalves_value]
    norm_num
  have hlayout := ecmascriptNumber_layout (fun _ => ['1', '.', '5'])
    minusThreeHalves ['1', '5'] 1 hnegative.ne printed_threeHalves
  rw [if_pos hnegative] at hlayout
  exact hlayout

end Decern
