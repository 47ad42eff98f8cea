import Decern.NumberLayout
import Decern.SamplePlatform
import Decern.SerdeText
import Mathlib.Tactic

/-!
# One number, one text

A canonical text writes one decimal number.  An integer's text writes the
integer; a double's writes the number its shortest digits stand for, which
beyond the integers a double holds exactly is not always the double.
-/

namespace Decern

open DecimalText
open Serde (FloatText naturalText negativeText)

/-! ## Writing a number -/

variable (floats : FloatText) (formatFinite : FiniteDouble → List Char)

/-- `write_number`; nothing where it panics. -/
def writeNumber (n : Serde.Number) : Option (List Char) :=
  match n with
  | .float bits =>
      (FiniteDouble.ofBits bits).bind (ecmascriptNumber formatFinite)
  | n => some (n.toText floats).chars

/-- What a number of the crate may be: its negative integers are negative, its
doubles finite. -/
def Held : Serde.Number → Prop
  | .posInt _ => True
  | .negInt value => value.toInt < 0
  | .float bits => (FiniteDouble.ofBits bits).isSome

def numberValue : Serde.Number → ℚ
  | .posInt value => value.toNat
  | .negInt value => value.toInt
  | .float bits => ((FiniteDouble.ofBits bits).map FiniteDouble.value).getD 0

/-! ## Canonical texts -/

/-- A text in the canonical layout and the number it writes. -/
inductive Canonical : List Char → ℚ → Prop where
  | zero : Canonical ['0'] 0
  | positive {digits : List Char} (point : ℤ)
      (hdigits : Significant digits) :
      Canonical (layout digits point) (scaled digits point)
  | negative {digits : List Char} (point : ℤ)
      (hdigits : Significant digits) :
      Canonical ('-' :: layout digits point) (-scaled digits point)

theorem head_text_ne_minus (s : Spelling) : s.text.head? ≠ some '-' := by
  intro hminus
  cases hwhole : s.whole with
  | cons c rest =>
      have hc : c = '-' := by
        simpa [Spelling.text, Spelling.mantissaText, hwhole] using hminus
      have hdigit := s.wholeDigits c (by simp [hwhole])
      rw [hc] at hdigit
      contradiction
  | nil =>
      cases hfraction : s.fraction <;> cases hexponent : s.exponent <;>
        simp [Spelling.text, Spelling.mantissaText, hwhole, hfraction,
          hexponent] at hminus

/-- The spelling under the sign of a canonical text. -/
theorem Canonical.spelled {text : List Char} {q : ℚ}
    (htext : Canonical text q) :
    (∃ s : Spelling, s.text = text ∧ s.value = q ∧ 0 ≤ q) ∨
      ∃ s : Spelling, text = '-' :: s.text ∧ s.value = -q ∧ q < 0 := by
  cases htext with
  | zero =>
      left
      let s : Spelling :=
        { whole := ['0']
          fraction := none
          exponent := none
          wholeDigits := allDigits_zeros 1
          fractionDigits := by simp }
      have hvalue : s.value = 0 := by
        simp [s, Spelling.value, number_singleton]
      exact ⟨s, rfl, hvalue, le_rfl⟩
  | positive point hdigits =>
      left
      rcases spelled_layout hdigits point with ⟨s, hs, hvalue⟩
      exact ⟨s, hs, hvalue, (hdigits.scaled_pos point).le⟩
  | negative point hdigits =>
      right
      rcases spelled_layout hdigits point with ⟨s, hs, hvalue⟩
      have hpos := hdigits.scaled_pos point
      exact ⟨s, by rw [hs], by rw [hvalue, neg_neg], by linarith⟩

theorem Canonical.value_unique {text : List Char} {q r : ℚ}
    (hq : Canonical text q) (hr : Canonical text r) : q = r := by
  rcases hq.spelled with ⟨s, hs, hsq, _⟩ | ⟨s, hs, hsq, _⟩ <;>
    rcases hr.spelled with ⟨t, ht, htr, _⟩ | ⟨t, ht, htr, _⟩
  · have hst : s = t := Spelling.text_injective (hs.trans ht.symm)
    rw [← hsq, ← htr, hst]
  · rw [ht] at hs
    exact absurd (by rw [hs]; rfl) (head_text_ne_minus s)
  · rw [hs] at ht
    exact absurd (by rw [ht]; rfl) (head_text_ne_minus t)
  · have hst : s = t :=
      Spelling.text_injective (List.cons.inj (hs.symm.trans ht)).2
    rw [hst] at hsq
    linarith

theorem Canonical.text_unique {left right : List Char} {q : ℚ}
    (hleft : Canonical left q) (hright : Canonical right q) :
    left = right := by
  generalize hr : q = r at hright
  cases hleft with
  | zero =>
      cases hright with
      | zero => rfl
      | positive p hdigits =>
          exact absurd hr (hdigits.scaled_pos p).ne
      | negative p hdigits =>
          have hpos := hdigits.scaled_pos p
          linarith
  | positive p hdigits =>
      have hpos := hdigits.scaled_pos p
      cases hright with
      | zero => linarith
      | positive p' hdigits' =>
          have hparts := scaled_inj hdigits hdigits' hr
          rw [hparts.1, hparts.2]
      | negative p' hdigits' =>
          have hpos' := hdigits'.scaled_pos p'
          linarith
  | negative p hdigits =>
      have hpos := hdigits.scaled_pos p
      cases hright with
      | zero => linarith
      | positive p' hdigits' =>
          have hpos' := hdigits'.scaled_pos p'
          linarith
      | negative p' hdigits' =>
          have hparts := scaled_inj hdigits hdigits' (neg_injective hr)
          rw [hparts.1, hparts.2]

theorem Canonical.eq_iff {left right : List Char} {q r : ℚ}
    (hleft : Canonical left q) (hright : Canonical right r) :
    left = right ↔ q = r := by
  constructor
  · intro heq
    subst heq
    exact hleft.value_unique hright
  · intro heq
    subst heq
    exact hleft.text_unique hright

/-! ## Integers -/

/-- The digits of an integer below `10 ^ 21` are its canonical text. -/
theorem canonical_toDigits {value : ℕ} (hvalue : 0 < value)
    (hlt : value < 10 ^ 21) :
    Canonical (Nat.toDigits 10 value) value := by
  have hall := allDigits_toDigits value
  have hnumber : number (Nat.toDigits 10 value) ≠ 0 := by
    rw [number_toDigits]
    omega
  have hleading :
      (Nat.toDigits 10 value).takeWhile (· == '0') = [] := by
    rcases Serde.toDigits_head_ne_zero hvalue with ⟨c, rest, hdigits, hc⟩
    rw [hdigits]
    simp [hc]
  have hscaled := scaled_stripZeros (Nat.toDigits 10 value)
    (Nat.toDigits 10 value).length
  have hvalueEq : (value : ℚ) =
      scaled (stripZeros (Nat.toDigits 10 value))
        (Nat.toDigits 10 value).length := by
    rw [hleading] at hscaled
    simp only [List.length_nil, Nat.cast_zero, sub_zero] at hscaled
    rw [hscaled, scaled, number_toDigits, sub_self, zpow_zero, mul_one]
  have hdrop : (Nat.toDigits 10 value).dropWhile (· == '0') =
      Nat.toDigits 10 value := by
    conv_rhs =>
      rw [← List.takeWhile_append_dropWhile (p := (· == '0'))
        (l := Nat.toDigits 10 value), hleading, List.nil_append]
  have hpadded := rdropWhile_append_zeros (Nat.toDigits 10 value)
  have hstrip : stripZeros (Nat.toDigits 10 value) =
      (Nat.toDigits 10 value).rdropWhile (· == '0') := by
    rw [stripZeros, hdrop]
  have hlength : (Nat.toDigits 10 value).length ≤ 21 :=
    (Nat.length_toDigits_le_iff (by norm_num) (by norm_num)).mpr hlt
  have htext : layout (stripZeros (Nat.toDigits 10 value))
      (Nat.toDigits 10 value).length = Nat.toDigits 10 value := by
    have hle := (List.rdropWhile_prefix (· == '0')
      (Nat.toDigits 10 value)).length_le
    have hcount : ((Nat.toDigits 10 value).length -
        ((Nat.toDigits 10 value).rdropWhile (· == '0')).length : ℤ).toNat =
          (Nat.toDigits 10 value).length -
            ((Nat.toDigits 10 value).rdropWhile (· == '0')).length := by
      omega
    rw [hstrip, layout, if_pos (by omega), hcount, hpadded]
  rw [hvalueEq]
  conv => arg 1; rw [← htext]
  exact Canonical.positive _ (significant_stripZeros hall hnumber)

theorem canonical_natural {value : ℕ} (hlt : value < 10 ^ 21) :
    Canonical (naturalText value).chars value := by
  rcases Nat.eq_zero_or_pos value with hzero | hpos
  · subst hzero
    exact Canonical.zero
  · exact canonical_toDigits hpos hlt

theorem canonical_negated {text : List Char} {q : ℚ}
    (htext : Canonical text q) (hq : 0 < q) :
    Canonical ('-' :: text) (-q) := by
  cases htext with
  | zero => exact absurd hq (lt_irrefl 0)
  | positive point hdigits => exact Canonical.negative point hdigits
  | negative point hdigits =>
      have hpos := hdigits.scaled_pos point
      linarith

/-! ## What is written -/

/-- The number the text of a number stands for: of a double, the one that the
printed digits of its magnitude write. -/
def Writes : Serde.Number → ℚ → Prop
  | .float bits, q => ∃ x, FiniteDouble.ofBits bits = some x ∧
      if x.value = 0 then q = 0
      else ∃ digits point, Printed (formatFinite x.abs) digits point ∧
        q = if x.value < 0 then -scaled digits point
          else scaled digits point
  | n, q => q = numberValue n

theorem Printed.unique {text left right : List Char} {p q : ℤ}
    (hleft : Printed text left p) (hright : Printed text right q) :
    left = right ∧ p = q := by
  apply layout_inj hleft.significant hright.significant
  have hlayouts := (relayout_eq hleft).symm.trans (relayout_eq hright)
  exact Option.some.inj hlayouts

theorem writes_unique {n : Serde.Number} {q r : ℚ}
    (hq : Writes formatFinite n q) (hr : Writes formatFinite n r) :
    q = r := by
  cases n with
  | posInt value => exact Eq.trans hq (Eq.symm hr)
  | negInt value => exact Eq.trans hq (Eq.symm hr)
  | float bits =>
      rcases hq with ⟨x, hx, hq⟩
      rcases hr with ⟨y, hy, hr⟩
      have hxy : x = y := Option.some.inj (hx.symm.trans hy)
      subst hxy
      by_cases hzero : x.value = 0
      · rw [if_pos hzero] at hq hr
        rw [hq, hr]
      · rw [if_neg hzero] at hq hr
        rcases hq with ⟨digits, point, hprinted, hq⟩
        rcases hr with ⟨digits', point', hprinted', hr⟩
        have hparts := hprinted.unique hprinted'
        rw [hq, hr, hparts.1, hparts.2]

theorem writeNumber_canonical {n : Serde.Number} {q : ℚ} (hheld : Held n)
    (hq : Writes formatFinite n q) :
    ∃ text, writeNumber floats formatFinite n = some text ∧
      Canonical text q := by
  cases n with
  | posInt value =>
      have hlt : value.toNat < 10 ^ 21 := by
        have hword := value.toNat_lt
        omega
      have hvalue : q = (value.toNat : ℚ) := hq
      rw [hvalue]
      exact ⟨_, rfl, canonical_natural hlt⟩
  | negInt value =>
      have hlow : -2 ^ 63 ≤ value.toInt := value.le_toInt
      have hnegative : value.toInt < 0 := hheld
      have hvalue : q = (value.toInt : ℚ) := hq
      cases hint : value.toInt with
      | ofNat n =>
          rw [hint] at hnegative
          exact absurd hnegative (by simp)
      | negSucc n =>
          have htext : writeNumber floats formatFinite (.negInt value) =
              some (negativeText (n + 1)).chars := by
            simp only [writeNumber, Serde.Number.toText, hint]
          have hlt : n + 1 < 10 ^ 21 := by
            rw [hint] at hlow
            omega
          have hq : q = -((n + 1 : ℕ) : ℚ) := by
            rw [hvalue, hint, Int.cast_negSucc]
          rw [hq]
          exact ⟨_, htext, canonical_negated
            (canonical_toDigits (Nat.succ_pos n) hlt) (by positivity)⟩
  | float bits =>
      rcases hq with ⟨x, hx, hq⟩
      have htext : writeNumber floats formatFinite (.float bits) =
          ecmascriptNumber formatFinite x := by
        simp only [writeNumber, hx, Option.bind_some]
      rw [htext]
      by_cases hzero : x.value = 0
      · rw [if_pos hzero] at hq
        rw [hq]
        exact ⟨_, ecmascriptNumber_zero formatFinite hzero, Canonical.zero⟩
      · rw [if_neg hzero] at hq
        rcases hq with ⟨digits, point, hprinted, hq⟩
        rw [hq]
        rcases lt_or_gt_of_ne hzero with hnegative | hpositive
        · rw [FiniteDouble.abs_of_neg hnegative] at hprinted
          rw [if_pos hnegative, ecmascriptNumber_neg formatFinite hnegative,
            relayout_eq hprinted]
          exact ⟨_, rfl, Canonical.negative point hprinted.significant⟩
        · rw [FiniteDouble.abs_of_pos hpositive] at hprinted
          rw [if_neg hpositive.not_gt,
            ecmascriptNumber_pos formatFinite hpositive,
            relayout_eq hprinted]
          exact ⟨_, rfl, Canonical.positive point hprinted.significant⟩

/-! ## The printer -/

/-- The digits the printer gives a double's magnitude are read back as it;
`nearest` is how a decimal number is read. -/
def PrintsBack (nearest : ℚ → Option FiniteDouble) : Serde.Number → Prop
  | .float bits => ∀ x, FiniteDouble.ofBits bits = some x → x.value ≠ 0 →
      ∃ digits point, Printed (formatFinite x.abs) digits point ∧
        nearest (scaled digits point) = some x.abs
  | _ => True

variable {formatFinite}

theorem exists_writes {nearest : ℚ → Option FiniteDouble}
    {n : Serde.Number} (hheld : Held n)
    (hprints : PrintsBack formatFinite nearest n) :
    ∃ q, Writes formatFinite n q := by
  cases n with
  | posInt value => exact ⟨_, rfl⟩
  | negInt value => exact ⟨_, rfl⟩
  | float bits =>
      rcases Option.isSome_iff_exists.mp hheld with ⟨x, hx⟩
      by_cases hzero : x.value = 0
      · exact ⟨0, x, hx, by rw [if_pos hzero]⟩
      · rcases hprints x hx hzero with ⟨digits, point, hprinted, _⟩
        refine ⟨if x.value < 0 then -scaled digits point
          else scaled digits point, x, hx, ?_⟩
        rw [if_neg hzero]
        exact ⟨digits, point, hprinted, rfl⟩

/-- Of the number a double's text stands for: it has the double's sign, and
its magnitude is read back as the double's. -/
theorem writes_double {nearest : ℚ → Option FiniteDouble} {bits : UInt64}
    {x : FiniteDouble} {q : ℚ} (hx : FiniteDouble.ofBits bits = some x)
    (hprints : PrintsBack formatFinite nearest (.float bits))
    (hq : Writes formatFinite (.float bits) q) :
    (x.value = 0 ∧ q = 0) ∨
    (x.value < 0 ∧ q < 0 ∧ nearest (-q) = some x.abs) ∨
    (0 < x.value ∧ 0 < q ∧ nearest q = some x.abs) := by
  rcases hq with ⟨y, hy, hq⟩
  have hxy : x = y := Option.some.inj (hx.symm.trans hy)
  subst hxy
  by_cases hzero : x.value = 0
  · rw [if_pos hzero] at hq
    exact Or.inl ⟨hzero, hq⟩
  · rw [if_neg hzero] at hq
    rcases hq with ⟨digits, point, hprinted, hq⟩
    rcases hprints x hx hzero with ⟨digits', point', hprinted', hback⟩
    have hparts := hprinted.unique hprinted'
    rw [← hparts.1, ← hparts.2] at hback
    have hpos := hprinted.significant.scaled_pos point
    rcases lt_or_gt_of_ne hzero with hnegative | hpositive
    · rw [if_pos hnegative] at hq
      refine Or.inr (Or.inl ⟨hnegative, by linarith, ?_⟩)
      rw [hq, neg_neg, hback]
    · rw [if_neg hpositive.not_gt] at hq
      refine Or.inr (Or.inr ⟨hpositive, by linarith, ?_⟩)
      rw [hq, hback]

/-- Two doubles' texts stand for one number exactly when the doubles are one. -/
theorem writes_doubles_iff {nearest : ℚ → Option FiniteDouble}
    {bits bits' : UInt64} {x y : FiniteDouble} {q r : ℚ}
    (hx : FiniteDouble.ofBits bits = some x)
    (hy : FiniteDouble.ofBits bits' = some y)
    (hprints : PrintsBack formatFinite nearest (.float bits))
    (hprints' : PrintsBack formatFinite nearest (.float bits'))
    (hq : Writes formatFinite (.float bits) q)
    (hr : Writes formatFinite (.float bits') r) :
    q = r ↔ x.value = y.value := by
  constructor
  · intro heq
    subst heq
    rcases writes_double hx hprints hq with
      ⟨hx0, hq0⟩ | ⟨hxneg, hqneg, hback⟩ | ⟨hxpos, hqpos, hback⟩ <;>
      rcases writes_double hy hprints' hr with
        ⟨hy0, hr0⟩ | ⟨hyneg, hrneg, hback'⟩ | ⟨hypos, hrpos, hback'⟩
    · rw [hx0, hy0]
    · linarith
    · linarith
    · linarith
    · have habs : x.abs = y.abs :=
        Option.some.inj (hback.symm.trans hback')
      rw [x.value_eq_abs, y.value_eq_abs, if_pos hxneg, if_pos hyneg, habs]
    · linarith
    · linarith
    · linarith
    · have habs : x.abs = y.abs :=
        Option.some.inj (hback.symm.trans hback')
      rw [x.value_eq_abs, y.value_eq_abs, if_neg hxpos.not_gt,
        if_neg hypos.not_gt, habs]
  · intro hvalue
    by_cases hzero : x.value = 0
    · rcases writes_double hx hprints hq with
        ⟨_, hq0⟩ | ⟨hxneg, _, _⟩ | ⟨hxpos, _, _⟩
      · rcases writes_double hy hprints' hr with
          ⟨_, hr0⟩ | ⟨hyneg, _, _⟩ | ⟨hypos, _, _⟩
        · rw [hq0, hr0]
        · linarith
        · linarith
      · linarith
      · linarith
    · have hxy : x = y := FiniteDouble.value_inj hvalue hzero
      have hbits : bits = bits' := by
        rw [FiniteDouble.bits_of_ofBits hx, FiniteDouble.bits_of_ofBits hy,
          hxy]
      rw [← hbits] at hr
      exact writes_unique formatFinite hq hr

/-! ## The law -/

/-- Where an integer meets a double, the double is the number its digits
write, or the integer is neither of the two. -/
def Concurs (formatFinite : FiniteDouble → List Char) :
    Serde.Number → Serde.Number → Prop
  | .float _, .float _ => True
  | .float bits, integer => ∀ q, Writes formatFinite (.float bits) q →
      q = numberValue (.float bits) ∨
        (numberValue integer ≠ q ∧
          numberValue integer ≠ numberValue (.float bits))
  | integer, .float bits => ∀ q, Writes formatFinite (.float bits) q →
      q = numberValue (.float bits) ∨
        (numberValue integer ≠ q ∧
          numberValue integer ≠ numberValue (.float bits))
  | _, _ => True

theorem agree_iff_apart {i q v : ℚ} :
    (i = q ↔ i = v) ↔ q = v ∨ (i ≠ q ∧ i ≠ v) := by
  constructor
  · intro hiff
    by_cases hq : i = q
    · exact Or.inl (hq.symm.trans (hiff.mp hq))
    · exact Or.inr ⟨hq, fun hv => hq (hiff.mpr hv)⟩
  · rintro (heq | ⟨hq, hv⟩)
    · rw [heq]
    · exact ⟨fun h => absurd h hq, fun h => absurd h hv⟩

theorem concurs_double_iff {bits : UInt64} {i q : ℚ}
    (hq : Writes formatFinite (.float bits) q) :
    (i = q ↔ i = numberValue (.float bits)) ↔
      ∀ r, Writes formatFinite (.float bits) r →
        r = numberValue (.float bits) ∨
          (i ≠ r ∧ i ≠ numberValue (.float bits)) := by
  constructor
  · intro hagree r hr
    rw [writes_unique formatFinite hr hq]
    exact agree_iff_apart.mp hagree
  · intro hconcurs
    exact agree_iff_apart.mpr (hconcurs q hq)

theorem agree_iff_concurs {nearest : ℚ → Option FiniteDouble}
    {a b : Serde.Number} {q r : ℚ} (hheld : Held a) (hheld' : Held b)
    (hprints : PrintsBack formatFinite nearest a)
    (hprints' : PrintsBack formatFinite nearest b)
    (hq : Writes formatFinite a q) (hr : Writes formatFinite b r) :
    (q = r ↔ numberValue a = numberValue b) ↔ Concurs formatFinite a b := by
  cases a with
  | posInt i =>
      have hi : q = numberValue (.posInt i) := hq
      cases b with
      | posInt j =>
          have hj : r = numberValue (.posInt j) := hr
          simp [Concurs, hi, hj]
      | negInt j =>
          have hj : r = numberValue (.negInt j) := hr
          simp [Concurs, hi, hj]
      | float bits =>
          rw [hi]
          exact concurs_double_iff hr
  | negInt i =>
      have hi : q = numberValue (.negInt i) := hq
      cases b with
      | posInt j =>
          have hj : r = numberValue (.posInt j) := hr
          simp [Concurs, hi, hj]
      | negInt j =>
          have hj : r = numberValue (.negInt j) := hr
          simp [Concurs, hi, hj]
      | float bits =>
          rw [hi]
          exact concurs_double_iff hr
  | float bits =>
      cases b with
      | posInt j =>
          have hj : r = numberValue (.posInt j) := hr
          rw [hj, eq_comm, @eq_comm _ (numberValue (.float bits))]
          exact concurs_double_iff hq
      | negInt j =>
          have hj : r = numberValue (.negInt j) := hr
          rw [hj, eq_comm, @eq_comm _ (numberValue (.float bits))]
          exact concurs_double_iff hq
      | float bits' =>
          rcases Option.isSome_iff_exists.mp hheld with ⟨x, hx⟩
          rcases Option.isSome_iff_exists.mp hheld' with ⟨y, hy⟩
          have hvalues := writes_doubles_iff hx hy hprints hprints' hq hr
          have hx' : numberValue (.float bits) = x.value := by
            simp [numberValue, hx]
          have hy' : numberValue (.float bits') = y.value := by
            simp [numberValue, hy]
          rw [hx', hy']
          exact ⟨fun _ => trivial, fun _ => hvalues⟩

/-- Two numbers have one text exactly when they are one number, where the two
concur. -/
theorem one_number_one_text_iff (floats : FloatText)
    (formatFinite : FiniteDouble → List Char)
    (nearest : ℚ → Option FiniteDouble) (a b : Serde.Number)
    (hheld : Held a) (hheld' : Held b)
    (hprints : PrintsBack formatFinite nearest a)
    (hprints' : PrintsBack formatFinite nearest b) :
    (writeNumber floats formatFinite a = writeNumber floats formatFinite b ↔
      numberValue a = numberValue b) ↔ Concurs formatFinite a b := by
  rcases exists_writes hheld hprints with ⟨q, hq⟩
  rcases exists_writes hheld' hprints' with ⟨r, hr⟩
  rcases writeNumber_canonical floats formatFinite hheld hq with
    ⟨text, htext, hcanonical⟩
  rcases writeNumber_canonical floats formatFinite hheld' hr with
    ⟨text', htext', hcanonical'⟩
  rw [htext, htext', Option.some.injEq, hcanonical.eq_iff hcanonical']
  exact agree_iff_concurs hheld hheld' hprints hprints' hq hr

theorem held_bits (x : FiniteDouble) : Held (.float x.bits) := by
  rw [Held, FiniteDouble.ofBits_bits]
  rfl

theorem printsBack_of_printed {x : FiniteDouble} (hpos : 0 < x.value)
    {text digits : List Char} {point : ℤ}
    (hprinted : Printed text digits point) :
    PrintsBack (fun _ => text) (fun _ => some x) (.float x.bits) := by
  intro y hy _
  have hsame : y = x := by
    rw [FiniteDouble.ofBits_bits] at hy
    exact (Option.some.inj hy).symm
  subst hsame
  rw [FiniteDouble.abs_of_pos hpos]
  exact ⟨_, _, hprinted, rfl⟩

/-! A double that is the number its digits write. -/

/-- `1.0`. -/
def doubleOne : FiniteDouble where
  bits := 0x3FF0000000000000
  finite := by decide

theorem doubleOne_value : doubleOne.value = 1 := by
  have hbits : doubleOne.bits.toNat = 4607182418800017408 := rfl
  norm_num [FiniteDouble.value, FiniteDouble.negative,
    FiniteDouble.magnitude, FiniteDouble.significand, FiniteDouble.shift,
    FiniteDouble.exponent, FiniteDouble.fraction, hbits]

theorem printed_doubleOne : Printed ['1', '.', '0'] ['1'] 1 where
  spelled := by
    let s : Spelling :=
      { whole := ['1']
        fraction := some ['0']
        exponent := none
        wholeDigits := by simp [AllDigits]
        fractionDigits := by simp [AllDigits] }
    refine ⟨s, rfl, ?_⟩
    rw [s.value_eq_scaled]
    exact scaled_append_zeros ['1'] 1 1
  significant :=
    { allDigits := by simp [AllDigits]
      nonempty := by simp
      head := by simp
      last := by simp }
  short := by norm_num
  near := by norm_num

theorem scaled_one : scaled ['1'] 1 = 1 := by
  have hnumber : number ['1'] = 1 := number_singleton '1'
  norm_num [scaled, hnumber]

theorem doubleOne_pos : 0 < doubleOne.value := by
  rw [doubleOne_value]
  norm_num

theorem numberValue_doubleOne : numberValue (.float doubleOne.bits) = 1 := by
  simp [numberValue, FiniteDouble.ofBits_bits, doubleOne_value]

theorem concurs_doubleOne : Concurs (fun _ => ['1', '.', '0'])
    (.posInt 1) (.float doubleOne.bits) := by
  intro q hq
  left
  have hone : Writes (fun _ => ['1', '.', '0']) (.float doubleOne.bits)
      1 := by
    refine ⟨doubleOne, FiniteDouble.ofBits_bits _, ?_⟩
    rw [if_neg doubleOne_pos.ne']
    refine ⟨_, _, printed_doubleOne, ?_⟩
    rw [if_neg doubleOne_pos.not_gt, scaled_one]
  rw [writes_unique _ hq hone, numberValue_doubleOne]

/-! A double that is not the number its digits write. -/

/-- `2 ^ 60`, which is `1152921504606846976`. -/
def twoToSixty : FiniteDouble where
  bits := 0x43B0000000000000
  finite := by decide

theorem twoToSixty_value : twoToSixty.value = 1152921504606846976 := by
  have hbits : twoToSixty.bits.toNat = 4877398396442247168 := rfl
  norm_num [FiniteDouble.value, FiniteDouble.negative,
    FiniteDouble.magnitude, FiniteDouble.significand, FiniteDouble.shift,
    FiniteDouble.exponent, FiniteDouble.fraction, hbits]

theorem twoToSixty_pos : 0 < twoToSixty.value := by
  rw [twoToSixty_value]
  norm_num

/-- Its sixteen digits, padded. -/
def printedTwoToSixty : List Char := "1152921504606847000".toList

theorem printed_twoToSixty :
    Printed printedTwoToSixty "1152921504606847".toList 19 where
  spelled := by
    let s : Spelling :=
      { whole := printedTwoToSixty
        fraction := none
        exponent := none
        wholeDigits := List.all_eq_true.mp (by decide)
        fractionDigits := by simp }
    have htext : s.text = printedTwoToSixty := by
      simp [s, Spelling.text, Spelling.mantissaText]
    refine ⟨s, htext, ?_⟩
    have hwhole : printedTwoToSixty =
        "1152921504606847".toList ++ List.replicate 3 '0' := by decide
    have hlength : printedTwoToSixty.length = 19 := by decide
    rw [s.value_eq_scaled]
    simp only [s, Spelling.digits, Spelling.power, Option.getD_none,
      List.append_nil, Option.map_none, hlength]
    rw [hwhole, scaled_append_zeros]
    norm_num
  significant :=
    { allDigits := List.all_eq_true.mp (by decide)
      nonempty := by decide
      head := by decide
      last := by decide }
  short := by decide
  near := by norm_num

/-- The integer one and the double one have one text; the double `2 ^ 60`
is not the integer of its text. -/
theorem one_number_one_text_iff_twoToSixty :
    writeNumber sampleFloats (fun _ => ['1', '.', '0']) (.posInt 1) =
      writeNumber sampleFloats (fun _ => ['1', '.', '0'])
        (.float doubleOne.bits) ∧
    ((writeNumber sampleFloats (fun _ => printedTwoToSixty)
        (.posInt 1152921504606847000) =
      writeNumber sampleFloats (fun _ => printedTwoToSixty)
        (.float twoToSixty.bits) ↔
      numberValue (.posInt 1152921504606847000) =
        numberValue (.float twoToSixty.bits)) ↔
      Concurs (fun _ => printedTwoToSixty) (.posInt 1152921504606847000)
        (.float twoToSixty.bits)) := by
  constructor
  · have hlaw := one_number_one_text_iff sampleFloats
      (fun _ => ['1', '.', '0']) (fun _ => some doubleOne) (.posInt 1)
      (.float doubleOne.bits) trivial (held_bits _) trivial
      (printsBack_of_printed doubleOne_pos printed_doubleOne)
    apply (hlaw.mpr concurs_doubleOne).mpr
    rw [numberValue_doubleOne]
    rfl
  · exact one_number_one_text_iff sampleFloats (fun _ => printedTwoToSixty)
      (fun _ => some twoToSixty) (.posInt 1152921504606847000)
      (.float twoToSixty.bits) trivial (held_bits _) trivial
      (printsBack_of_printed twoToSixty_pos printed_twoToSixty)

/-- Two numbers with one text. -/
theorem double_shares_text_of_integer :
    ¬ (writeNumber sampleFloats (fun _ => printedTwoToSixty)
        (.posInt 1152921504606847000) =
      writeNumber sampleFloats (fun _ => printedTwoToSixty)
        (.float twoToSixty.bits) ↔
      numberValue (.posInt 1152921504606847000) =
        numberValue (.float twoToSixty.bits)) := by
  have hdouble : writeNumber sampleFloats (fun _ => printedTwoToSixty)
      (.float twoToSixty.bits) =
        some (layout "1152921504606847".toList 19) := by
    simp only [writeNumber, FiniteDouble.ofBits_bits, Option.bind_some]
    rw [ecmascriptNumber_pos _ twoToSixty_pos, relayout_eq printed_twoToSixty]
  have hinteger : writeNumber sampleFloats (fun _ => printedTwoToSixty)
      (.posInt 1152921504606847000) =
        some (layout "1152921504606847".toList 19) := by
    decide
  have hvalues : numberValue (.posInt 1152921504606847000) ≠
      numberValue (.float twoToSixty.bits) := by
    have hsixty : numberValue (.float twoToSixty.bits) =
        1152921504606846976 := by
      simp [numberValue, FiniteDouble.ofBits_bits, twoToSixty_value]
    have hword : (1152921504606847000 : UInt64).toNat =
        1152921504606847000 := rfl
    rw [hsixty, numberValue, hword]
    norm_num
  intro hagree
  exact hvalues (hagree.mp (hinteger.trans hdouble.symm))

end Decern
