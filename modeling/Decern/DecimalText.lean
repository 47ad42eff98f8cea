import Mathlib.Data.List.DropRight
import Mathlib.Data.List.TakeWhile
import Mathlib.Tactic

/-!
# Decimal text

Rows of decimal digits and the numbers they write.  A positive decimal number
is its significant digits and the place of the point among them; it may be
spelled in many ways and has one canonical layout.
-/

namespace DecimalText

/-! ## Rows of digits -/

def number (digits : List Char) : ℕ :=
  Nat.ofDigitChars 10 digits 0

def AllDigits (digits : List Char) : Prop :=
  ∀ c ∈ digits, c.isDigit = true

@[simp] theorem number_nil : number [] = 0 :=
  Nat.ofDigitChars_nil

theorem number_append (high low : List Char) :
    number (high ++ low) = number high * 10 ^ low.length + number low := by
  unfold number
  rw [Nat.ofDigitChars_append, Nat.ofDigitChars_eq_ofDigitChars_zero,
    Nat.mul_comm]

@[simp] theorem number_zeros (count : ℕ) :
    number (List.replicate count '0') = 0 := by
  simp [number]

theorem number_singleton (c : Char) : number [c] = c.toNat - 48 := by
  simp [number, Nat.ofDigitChars_cons]

theorem number_toDigits (value : ℕ) : number (Nat.toDigits 10 value) = value :=
  Nat.ofDigitChars_ten_toDigits

theorem allDigits_nil : AllDigits [] := by
  simp [AllDigits]

theorem allDigits_append {high low : List Char} :
    AllDigits (high ++ low) ↔ AllDigits high ∧ AllDigits low := by
  simp [AllDigits, or_imp, forall_and]

theorem allDigits_zeros (count : ℕ) :
    AllDigits (List.replicate count '0') := by
  intro c hc
  rw [List.eq_of_mem_replicate hc]
  rfl

theorem AllDigits.sublist {part digits : List Char}
    (hdigits : AllDigits digits) (hpart : part.Sublist digits) :
    AllDigits part :=
  fun c hc => hdigits c (hpart.subset hc)

theorem allDigits_toDigits (value : ℕ) :
    AllDigits (Nat.toDigits 10 value) :=
  fun _ hc => Nat.isDigit_of_mem_toDigits (by decide) (by decide) hc

theorem digit_value {c : Char} (hc : c.isDigit = true) :
    number [c] < 10 ∧ (number [c] = 0 ↔ c = '0') := by
  have hbounds : 48 ≤ c.toNat ∧ c.toNat ≤ 57 := Char.isDigit_iff_toNat.mp hc
  rw [number_singleton, ← Char.toNat_inj]
  have hzero : '0'.toNat = 48 := rfl
  rw [hzero]
  omega

theorem number_lt {digits : List Char} (hdigits : AllDigits digits) :
    number digits < 10 ^ digits.length := by
  induction digits using List.reverseRecOn with
  | nil => simp
  | append_singleton high c ih =>
      have hparts := allDigits_append.mp hdigits
      have hhigh : number high < 10 ^ high.length := ih hparts.1
      have hc : number [c] < 10 := (digit_value (hparts.2 c (by simp))).1
      rw [number_append, List.length_append, List.length_singleton, pow_one,
        pow_succ]
      omega

/-- Rows of one length that write one number are one row. -/
theorem number_inj {left right : List Char} (hleft : AllDigits left)
    (hright : AllDigits right) (hlength : left.length = right.length)
    (hnumber : number left = number right) : left = right := by
  induction left using List.reverseRecOn generalizing right with
  | nil => exact (List.length_eq_zero_iff.mp hlength.symm).symm
  | append_singleton high c ih =>
      rcases List.eq_nil_or_concat right with hnil | ⟨high', c', hconcat⟩
      · simp [hnil] at hlength
      · rw [List.concat_eq_append] at hconcat
        subst hconcat
        have hl := allDigits_append.mp hleft
        have hr := allDigits_append.mp hright
        have hlast := digit_value (hl.2 c (by simp))
        have hlast' := digit_value (hr.2 c' (by simp))
        rw [number_append, number_append, List.length_singleton,
          List.length_singleton, pow_one] at hnumber
        have hlengths : high.length = high'.length := by simpa using hlength
        have hhigh : high = high' := ih hl.1 hr.1 hlengths (by omega)
        have hbounds : 48 ≤ c.toNat ∧ c.toNat ≤ 57 :=
          Char.isDigit_iff_toNat.mp (hl.2 c (by simp))
        have hbounds' : 48 ≤ c'.toNat ∧ c'.toNat ≤ 57 :=
          Char.isDigit_iff_toNat.mp (hr.2 c' (by simp))
        have hc : c.toNat = c'.toNat := by
          rw [hhigh, number_singleton, number_singleton] at hnumber
          omega
        rw [hhigh, Char.toNat_inj.mp hc]

/-! ## Significant digits -/

/-- `0.d₁d₂… × 10 ^ point`. -/
def scaled (digits : List Char) (point : ℤ) : ℚ :=
  number digits * 10 ^ (point - digits.length)

/-- At least one digit, and no zero at either end. -/
structure Significant (digits : List Char) : Prop where
  allDigits : AllDigits digits
  nonempty : digits ≠ []
  head : digits.head? ≠ some '0'
  last : digits.getLast? ≠ some '0'

theorem scaled_zeros_append (count : ℕ) (digits : List Char) (point : ℤ) :
    scaled (List.replicate count '0' ++ digits) point =
      scaled digits (point - count) := by
  unfold scaled
  rw [number_append, number_zeros, Nat.zero_mul, Nat.zero_add,
    List.length_append, List.length_replicate]
  congr 2
  push_cast
  ring

theorem scaled_append_zeros (digits : List Char) (count : ℕ) (point : ℤ) :
    scaled (digits ++ List.replicate count '0') point =
      scaled digits point := by
  unfold scaled
  rw [number_append, number_zeros, Nat.add_zero, List.length_append,
    List.length_replicate]
  have hten : (10 : ℚ) ≠ 0 := by norm_num
  have hexponent : point - (digits.length : ℤ) =
      (count : ℤ) + (point - ((digits.length + count : ℕ) : ℤ)) := by
    push_cast
    ring
  rw [hexponent, zpow_add₀ hten, zpow_natCast]
  push_cast
  ring

theorem Significant.number_lower {digits : List Char}
    (hdigits : Significant digits) :
    10 ^ (digits.length - 1) ≤ number digits := by
  cases digits with
  | nil => exact absurd rfl hdigits.nonempty
  | cons c rest =>
      have hc : c ≠ '0' := by
        intro hzero
        exact hdigits.head (by simp [hzero])
      have hvalue := digit_value (hdigits.allDigits c (by simp))
      have hpos : 1 ≤ number [c] := by
        rcases Nat.eq_zero_or_pos (number [c]) with hzero | hpos
        · exact absurd (hvalue.2.mp hzero) hc
        · exact hpos
      have hsplit : number (c :: rest) =
          number [c] * 10 ^ rest.length + number rest :=
        number_append [c] rest
      rw [hsplit, List.length_cons, Nat.add_sub_cancel]
      calc 10 ^ rest.length = 1 * 10 ^ rest.length := (Nat.one_mul _).symm
        _ ≤ number [c] * 10 ^ rest.length := Nat.mul_le_mul_right _ hpos
        _ ≤ _ := Nat.le_add_right _ _

theorem Significant.scaled_bounds {digits : List Char}
    (hdigits : Significant digits) (point : ℤ) :
    (10 : ℚ) ^ (point - 1) ≤ scaled digits point ∧
      scaled digits point < 10 ^ point := by
  have hten : (10 : ℚ) ≠ 0 := by norm_num
  have hpower : (0 : ℚ) < 10 ^ (point - (digits.length : ℤ)) := by positivity
  have hlength : 1 ≤ digits.length :=
    List.length_pos_iff.mpr hdigits.nonempty
  constructor
  · have hsplit : point - 1 =
        ((digits.length - 1 : ℕ) : ℤ) + (point - digits.length) := by
      omega
    have hlower : (10 : ℚ) ^ (digits.length - 1) ≤ number digits := by
      exact_mod_cast hdigits.number_lower
    rw [hsplit, zpow_add₀ hten, zpow_natCast]
    exact mul_le_mul_of_nonneg_right hlower hpower.le
  · have hsplit : point =
        (digits.length : ℤ) + (point - digits.length) := by
      ring
    have hupper : (number digits : ℚ) < 10 ^ digits.length := by
      exact_mod_cast number_lt hdigits.allDigits
    calc scaled digits point
        < 10 ^ digits.length * 10 ^ (point - (digits.length : ℤ)) :=
          mul_lt_mul_of_pos_right hupper hpower
      _ = 10 ^ point := by
          conv_rhs => rw [hsplit]
          rw [zpow_add₀ hten, zpow_natCast]

theorem Significant.scaled_pos {digits : List Char}
    (hdigits : Significant digits) (point : ℤ) : 0 < scaled digits point := by
  have hpower : (0 : ℚ) < 10 ^ (point - 1) := by positivity
  exact hpower.trans_le (hdigits.scaled_bounds point).1

/-- A significant row of a longer row's number is that row. -/
theorem Significant.eq_of_padded {digits longer : List Char}
    (hdigits : AllDigits digits) (hlonger : Significant longer)
    (hlength : digits.length ≤ longer.length)
    (hnumber : number digits * 10 ^ (longer.length - digits.length) =
      number longer) :
    digits = longer := by
  have hpadded : digits ++
      List.replicate (longer.length - digits.length) '0' = longer := by
    apply number_inj
    · exact allDigits_append.mpr ⟨hdigits, allDigits_zeros _⟩
    · exact hlonger.allDigits
    · simp
      omega
    · rw [number_append, number_zeros, List.length_replicate, hnumber,
        Nat.add_zero]
  cases hcount : longer.length - digits.length with
  | zero => simpa [hcount] using hpadded
  | succ count =>
      rw [hcount, List.replicate_succ', ← List.append_assoc] at hpadded
      apply absurd _ hlonger.last
      rw [← hpadded]
      simp

/-- A positive number has one row of significant digits and one point. -/
theorem scaled_inj {left right : List Char} {p q : ℤ}
    (hleft : Significant left) (hright : Significant right)
    (hscaled : scaled left p = scaled right q) : left = right ∧ p = q := by
  have hten : (1 : ℚ) < 10 := by norm_num
  have hpoints : p = q := by
    have hl := hleft.scaled_bounds p
    have hr := hright.scaled_bounds q
    have hlt : p - 1 < q :=
      (zpow_lt_zpow_iff_right₀ hten).mp (hl.1.trans_lt (hscaled ▸ hr.2))
    have hgt : q - 1 < p :=
      (zpow_lt_zpow_iff_right₀ hten).mp (hr.1.trans_lt (hscaled ▸ hl.2))
    omega
  subst hpoints
  refine ⟨?_, rfl⟩
  have hne : (10 : ℚ) ≠ 0 := by norm_num
  have hnumbers : ∀ a b : List Char, scaled a p = scaled b p →
      a.length ≤ b.length →
      number a * 10 ^ (b.length - a.length) = number b := by
    intro a b hab hlength
    have hsplit : p - (a.length : ℤ) =
        ((b.length - a.length : ℕ) : ℤ) + (p - b.length) := by
      omega
    have hpower : (10 : ℚ) ^ (p - (b.length : ℤ)) ≠ 0 := zpow_ne_zero _ hne
    unfold scaled at hab
    rw [hsplit, zpow_add₀ hne, zpow_natCast, ← mul_assoc] at hab
    exact_mod_cast mul_right_cancel₀ hpower hab
  rcases Nat.le_total left.length right.length with hle | hle
  · exact Significant.eq_of_padded hleft.allDigits hright hle
      (hnumbers left right hscaled hle)
  · exact (Significant.eq_of_padded hright.allDigits hleft hle
      (hnumbers right left hscaled.symm hle)).symm

/-- Zeros stripped from both ends. -/
def stripZeros (digits : List Char) : List Char :=
  (digits.dropWhile (· == '0')).rdropWhile (· == '0')

theorem replicate_of_all {c : Char} {row : List Char}
    (hrow : ∀ d ∈ row, (d == c) = true) :
    row = List.replicate row.length c := by
  apply List.eq_replicate_of_mem
  intro d hd
  exact beq_iff_eq.mp (hrow d hd)

theorem takeWhile_zeros (digits : List Char) :
    digits.takeWhile (· == '0') =
      List.replicate (digits.takeWhile (· == '0')).length '0' :=
  replicate_of_all fun _ hd => List.mem_takeWhile_imp (p := (· == '0')) hd

theorem scaled_dropWhile (digits : List Char) (point : ℤ) :
    scaled (digits.dropWhile (· == '0'))
        (point - (digits.takeWhile (· == '0')).length) =
      scaled digits point := by
  conv_rhs =>
    rw [← List.takeWhile_append_dropWhile (p := (· == '0')) (l := digits),
      takeWhile_zeros digits, scaled_zeros_append]

theorem rdropWhile_append_zeros (digits : List Char) :
    digits.rdropWhile (· == '0') ++
      List.replicate
        (digits.length - (digits.rdropWhile (· == '0')).length) '0' =
      digits := by
  have hsplit : digits.rdropWhile (· == '0') ++
      digits.rtakeWhile (· == '0') = digits :=
    List.rdropWhile_append_rtakeWhile
  have hzeros : digits.rtakeWhile (· == '0') =
      List.replicate (digits.rtakeWhile (· == '0')).length '0' :=
    replicate_of_all fun _ hd => List.mem_rtakeWhile_imp (p := (· == '0')) hd
  have hlength := congrArg List.length hsplit
  rw [List.length_append] at hlength
  conv_rhs => rw [← hsplit, hzeros]
  congr 2
  omega

theorem scaled_rdropWhile (digits : List Char) (point : ℤ) :
    scaled (digits.rdropWhile (· == '0')) point = scaled digits point := by
  conv_rhs => rw [← rdropWhile_append_zeros digits, scaled_append_zeros]

theorem scaled_stripZeros (digits : List Char) (point : ℤ) :
    scaled (stripZeros digits)
        (point - (digits.takeWhile (· == '0')).length) =
      scaled digits point := by
  unfold stripZeros
  rw [scaled_rdropWhile, scaled_dropWhile]

theorem scaled_ne_zero_iff (digits : List Char) (point : ℤ) :
    scaled digits point ≠ 0 ↔ number digits ≠ 0 := by
  have hpower : (10 : ℚ) ^ (point - (digits.length : ℤ)) ≠ 0 :=
    zpow_ne_zero _ (by norm_num)
  simp [scaled, hpower]

theorem significant_stripZeros {digits : List Char}
    (hdigits : AllDigits digits) (hnumber : number digits ≠ 0) :
    Significant (stripZeros digits) := by
  have hscaled : scaled (stripZeros digits)
      (0 - ((digits.takeWhile (· == '0')).length : ℤ)) ≠ 0 := by
    rw [scaled_stripZeros]
    exact (scaled_ne_zero_iff digits 0).mpr hnumber
  have hstripped : number (stripZeros digits) ≠ 0 :=
    (scaled_ne_zero_iff _ _).mp hscaled
  have hnonempty : stripZeros digits ≠ [] := by
    intro hnil
    exact hstripped (by rw [hnil, number_nil])
  have hfront : stripZeros digits <+: digits.dropWhile (· == '0') :=
    List.rdropWhile_prefix _ _
  constructor
  · exact hdigits.sublist
      (hfront.sublist.trans (List.dropWhile_sublist _))
  · exact hnonempty
  · intro hhead
    have hfirst := List.head?_dropWhile_not (· == '0') digits
    rcases hfront with ⟨rest, hrest⟩
    cases hstrip : stripZeros digits with
    | nil => exact hnonempty hstrip
    | cons c tail =>
        rw [hstrip] at hhead hrest
        have hc : c = '0' := by simpa using hhead
        rw [← hrest, hc] at hfirst
        simp at hfirst
  · intro hlast
    have hnot := List.rdropWhile_last_not (· == '0')
      (digits.dropWhile (· == '0')) hnonempty
    rw [List.getLast?_eq_some_getLast hnonempty] at hlast
    exact hnot (beq_iff_eq.mpr (Option.some.inj hlast))

/-! ## Spellings -/

inductive Sign where
  | plus
  | minus
  deriving DecidableEq, Repr

def Sign.text : Sign → List Char
  | .plus => ['+']
  | .minus => ['-']

@[ext] structure Exponent where
  sign : Option Sign
  digits : List Char
  allDigits : AllDigits digits
  nonempty : digits ≠ []

namespace Exponent

def value (e : Exponent) : ℤ :=
  if e.sign = some .minus then -(number e.digits : ℤ) else number e.digits

def text (e : Exponent) : List Char :=
  (e.sign.map Sign.text).getD [] ++ e.digits

end Exponent

/-- A number written with digits, perhaps a point and more of them, and perhaps
a power of ten. -/
@[ext] structure Spelling where
  whole : List Char
  fraction : Option (List Char)
  exponent : Option Exponent
  wholeDigits : AllDigits whole
  fractionDigits : ∀ row ∈ fraction, AllDigits row

namespace Spelling

def digits (s : Spelling) : List Char :=
  s.whole ++ s.fraction.getD []

def power (s : Spelling) : ℤ :=
  (s.exponent.map Exponent.value).getD 0

def mantissaText (s : Spelling) : List Char :=
  s.whole ++ (s.fraction.map ('.' :: ·)).getD []

def text (s : Spelling) : List Char :=
  s.mantissaText ++ (s.exponent.map ('e' :: ·.text)).getD []

def value (s : Spelling) : ℚ :=
  (number s.whole +
    number (s.fraction.getD []) / 10 ^ (s.fraction.getD []).length) *
    10 ^ s.power

theorem allDigits_fraction (s : Spelling) :
    AllDigits (s.fraction.getD []) := by
  cases hfraction : s.fraction with
  | none => exact allDigits_nil
  | some row => exact s.fractionDigits row (by simp [hfraction])

theorem allDigits (s : Spelling) : AllDigits s.digits :=
  allDigits_append.mpr ⟨s.wholeDigits, s.allDigits_fraction⟩

theorem value_eq_scaled (s : Spelling) :
    s.value = scaled s.digits (s.power + s.whole.length) := by
  have hten : (10 : ℚ) ≠ 0 := by norm_num
  have hpower : (10 : ℚ) ^ (s.fraction.getD []).length ≠ 0 :=
    pow_ne_zero _ hten
  have hexponent : s.power + (s.whole.length : ℤ) - (s.digits.length : ℤ) =
      s.power - ((s.fraction.getD []).length : ℤ) := by
    unfold digits
    rw [List.length_append]
    push_cast
    ring
  unfold value scaled
  rw [hexponent, zpow_sub₀ hten, zpow_natCast, digits, number_append]
  push_cast
  field_simp

/-- The significant digits of a spelled number, and its point. -/
theorem stripZeros_digits {s : Spelling} {row : List Char} {point : ℤ}
    (hrow : Significant row) (hvalue : s.value = scaled row point) :
    stripZeros s.digits = row ∧
      s.power + s.whole.length -
        (s.digits.takeWhile (· == '0')).length = point := by
  rw [value_eq_scaled] at hvalue
  have hnumber : number s.digits ≠ 0 := by
    apply (scaled_ne_zero_iff s.digits (s.power + s.whole.length)).mp
    rw [hvalue]
    exact (hrow.scaled_pos point).ne'
  apply scaled_inj (significant_stripZeros s.allDigits hnumber) hrow
  rw [scaled_stripZeros, hvalue]

end Spelling

/-! ## A text has one spelling -/

theorem digits_append_inj {left right : List Char} {x y : List Char}
    (hleft : AllDigits left) (hright : AllDigits right)
    (hx : ∀ c ∈ x.head?, c.isDigit = false)
    (hy : ∀ c ∈ y.head?, c.isDigit = false)
    (heq : left ++ x = right ++ y) : left = right ∧ x = y := by
  have hstops : ∀ row tail : List Char, AllDigits row →
      (∀ c ∈ tail.head?, c.isDigit = false) →
      (row ++ tail).takeWhile Char.isDigit = row := by
    intro row tail hrow htail
    rw [List.takeWhile_append_of_pos hrow]
    cases tail with
    | nil => simp
    | cons c rest => simp [htail c (by simp)]
  have hrows : left = right := by
    rw [← hstops left x hleft hx, heq, hstops right y hright hy]
  subst hrows
  exact ⟨rfl, List.append_cancel_left heq⟩

theorem Exponent.text_injective : Function.Injective Exponent.text := by
  intro a b hab
  have hfirst : ∀ e : Exponent, ∃ c rest, e.digits = c :: rest ∧
      (c ≠ '+' ∧ c ≠ '-') ∧ '+' ≠ c ∧ '-' ≠ c := by
    intro e
    cases hdigits : e.digits with
    | nil => exact absurd hdigits e.nonempty
    | cons c rest =>
        have hc : c.isDigit = true := e.allDigits c (by simp [hdigits])
        have hplus : c ≠ '+' := by
          intro hplus
          simp [hplus] at hc
        have hminus : c ≠ '-' := by
          intro hminus
          simp [hminus] at hc
        exact ⟨c, rest, rfl, ⟨hplus, hminus⟩, hplus.symm, hminus.symm⟩
  rcases hfirst a with ⟨c, rest, hac, hc⟩
  rcases hfirst b with ⟨d, rest', hbd, hd⟩
  unfold Exponent.text at hab
  rcases a with ⟨_ | _ | _, adigits, _, _⟩ <;>
    rcases b with ⟨_ | _ | _, bdigits, _, _⟩ <;>
    simp_all [Sign.text]

theorem Spelling.text_injective : Function.Injective Spelling.text := by
  intro a b hab
  have hexponent : ∀ (e : Option Exponent) (c : Char),
      c ∈ ((e.map ('e' :: ·.text)).getD []).head? → c = 'e' := by
    intro e c hc
    cases e with
    | none => simp at hc
    | some e => simpa [eq_comm] using hc
  have htail : ∀ s : Spelling, ∀ c ∈ ((s.fraction.map ('.' :: ·)).getD [] ++
      (s.exponent.map ('e' :: ·.text)).getD []).head?,
      c.isDigit = false := by
    intro s c hc
    cases hfraction : s.fraction with
    | none =>
        rw [hfraction] at hc
        rw [hexponent s.exponent c (by simpa using hc)]
        rfl
    | some row =>
        rw [hfraction] at hc
        have hpoint : c = '.' := by simpa [eq_comm] using hc
        rw [hpoint]
        rfl
  have hwhole : a.whole = b.whole ∧ _ :=
    digits_append_inj a.wholeDigits b.wholeDigits (htail a) (htail b)
      (by simpa [Spelling.text, Spelling.mantissaText] using hab)
  have hrest := hwhole.2
  have hparts : a.fraction = b.fraction ∧
      (a.exponent.map ('e' :: ·.text)).getD [] =
        (b.exponent.map ('e' :: ·.text)).getD [] := by
    cases ha : a.fraction with
    | none =>
        cases hb : b.fraction with
        | none => simpa [ha, hb] using hrest
        | some row =>
            rw [ha, hb] at hrest
            cases he : a.exponent <;> simp [he] at hrest
    | some row =>
        cases hb : b.fraction with
        | none =>
            rw [ha, hb] at hrest
            cases he : b.exponent <;> simp [he] at hrest
        | some row' =>
            rw [ha, hb] at hrest
            have hrows := digits_append_inj
              (a.fractionDigits row (by simp [ha]))
              (b.fractionDigits row' (by simp [hb]))
              (fun c hc => hexponent a.exponent c hc ▸ rfl)
              (fun c hc => hexponent b.exponent c hc ▸ rfl)
              (by simpa using hrest)
            exact ⟨congrArg some hrows.1, hrows.2⟩
  have hexponents : a.exponent = b.exponent := by
    have htexts := hparts.2
    cases ha : a.exponent <;> cases hb : b.exponent <;>
      simp [ha, hb] at htexts ⊢
    exact Exponent.text_injective htexts
  exact Spelling.ext hwhole.1 hparts.1 hexponents

/-! ## The canonical layout -/

def exponentLayout (digits : List Char) (point : ℤ) : List Char :=
  digits.take 1 ++
    (if digits.length = 1 then [] else '.' :: digits.drop 1) ++
    'e' :: (if 0 < point then '+' else '-') ::
      Nat.toDigits 10 (point - 1).natAbs

/-- Digits padded with zeros, a point inside, a point in front with zeros
after it, or one digit and a power of ten. -/
def layout (digits : List Char) (point : ℤ) : List Char :=
  if digits.length ≤ point ∧ point ≤ 21 then
    digits ++ List.replicate (point - digits.length).toNat '0'
  else if 0 < point ∧ point ≤ 21 then
    digits.take point.toNat ++ '.' :: digits.drop point.toNat
  else if -6 < point ∧ point ≤ 0 then
    '0' :: '.' :: List.replicate (-point).toNat '0' ++ digits
  else exponentLayout digits point

theorem spelled_exponentLayout {digits : List Char}
    (hdigits : Significant digits) (point : ℤ) :
    ∃ s : Spelling, s.text = exponentLayout digits point ∧
      s.value = scaled digits point := by
  have hlength : 1 ≤ digits.length :=
    List.length_pos_iff.mpr hdigits.nonempty
  let power : Exponent :=
    { sign := some (if 0 < point then .plus else .minus)
      digits := Nat.toDigits 10 (point - 1).natAbs
      allDigits := allDigits_toDigits _
      nonempty := Nat.toDigits_ne_nil }
  have hpower : power.value = point - 1 := by
    unfold Exponent.value
    by_cases hpoint : 0 < point
    · rw [if_neg (by simp [power, hpoint]), number_toDigits]
      omega
    · rw [if_pos (by simp [power, hpoint]), number_toDigits]
      omega
  let s : Spelling :=
    { whole := digits.take 1
      fraction := if digits.length = 1 then none else some (digits.drop 1)
      exponent := some power
      wholeDigits := hdigits.allDigits.sublist (List.take_sublist _ _)
      fractionDigits := by
        intro row hrow
        split at hrow
        · simp at hrow
        · rw [← Option.some.inj hrow]
          exact hdigits.allDigits.sublist (List.drop_sublist _ _) }
  have hrow : s.digits = digits := by
    by_cases hone : digits.length = 1
    · simp [s, Spelling.digits, hone, List.take_of_length_le]
    · simp only [s, Spelling.digits, hone, if_false, Option.getD_some]
      exact List.take_append_drop 1 digits
  refine ⟨s, ?_, ?_⟩
  · by_cases hone : digits.length = 1 <;> by_cases hpoint : 0 < point <;>
      simp [s, power, Spelling.text, Spelling.mantissaText, Exponent.text,
        Sign.text, exponentLayout, hone, hpoint]
  · rw [s.value_eq_scaled, hrow]
    congr 1
    have hwhole : s.whole.length = 1 := by simp [s]; omega
    have hs : s.power = power.value := rfl
    rw [hwhole, hs, hpower]
    ring

/-- A canonical layout spells its number. -/
theorem spelled_layout {digits : List Char}
    (hdigits : Significant digits) (point : ℤ) :
    ∃ s : Spelling, s.text = layout digits point ∧
      s.value = scaled digits point := by
  unfold layout
  split
  case isTrue hpadded =>
    let s : Spelling :=
      { whole := digits ++ List.replicate (point - digits.length).toNat '0'
        fraction := none
        exponent := none
        wholeDigits := allDigits_append.mpr
          ⟨hdigits.allDigits, allDigits_zeros _⟩
        fractionDigits := by simp }
    refine ⟨s, by simp [s, Spelling.text, Spelling.mantissaText], ?_⟩
    rw [s.value_eq_scaled]
    simp only [s, Spelling.digits, Spelling.power, Option.getD_none,
      List.append_nil, Option.map_none]
    rw [scaled_append_zeros]
    congr 1
    simp
    omega
  case isFalse hpadded =>
    split
    case isTrue hinside =>
      let s : Spelling :=
        { whole := digits.take point.toNat
          fraction := some (digits.drop point.toNat)
          exponent := none
          wholeDigits := hdigits.allDigits.sublist (List.take_sublist _ _)
          fractionDigits := by
            intro row hrow
            rw [← Option.some.inj hrow]
            exact hdigits.allDigits.sublist (List.drop_sublist _ _) }
      refine ⟨s, by simp [s, Spelling.text, Spelling.mantissaText], ?_⟩
      rw [s.value_eq_scaled]
      simp only [s, Spelling.digits, Spelling.power, Option.getD_some,
        List.take_append_drop, Option.map_none, Option.getD_none]
      congr 1
      simp
      omega
    case isFalse hinside =>
      split
      case isTrue hsmall =>
        let s : Spelling :=
          { whole := ['0']
            fraction :=
              some (List.replicate (-point).toNat '0' ++ digits)
            exponent := none
            wholeDigits := allDigits_zeros 1
            fractionDigits := by
              intro row hrow
              rw [← Option.some.inj hrow]
              exact allDigits_append.mpr
                ⟨allDigits_zeros _, hdigits.allDigits⟩ }
        refine ⟨s, by simp [s, Spelling.text, Spelling.mantissaText], ?_⟩
        have hrow : s.digits =
            List.replicate 1 '0' ++
              (List.replicate (-point).toNat '0' ++ digits) := rfl
        rw [s.value_eq_scaled, hrow, scaled_zeros_append,
          scaled_zeros_append]
        congr 1
        simp [s, Spelling.power]
        omega
      case isFalse hsmall => exact spelled_exponentLayout hdigits point

/-- Different numbers have different layouts. -/
theorem layout_inj {left right : List Char} {p q : ℤ}
    (hleft : Significant left) (hright : Significant right)
    (hlayout : layout left p = layout right q) : left = right ∧ p = q := by
  rcases spelled_layout hleft p with ⟨s, hs, hvalue⟩
  rcases spelled_layout hright q with ⟨t, ht, hvalue'⟩
  have hst : s = t := Spelling.text_injective (by rw [hs, ht, hlayout])
  apply scaled_inj hleft hright
  rw [← hvalue, ← hvalue', hst]

end DecimalText
