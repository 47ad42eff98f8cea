import Decern.JsonText
import Decern.SerdeValue
import Mathlib.Tactic

/-!
# Values written to and read from JSON text

A value is printed as the tree of its text.  Reading a tree as a value fails
on an unpaired surrogate, on a number out of range, and on text nested beyond
the parser's recursion limit.
-/

namespace Serde

open JsonText (Doc NumberText StringUnit)

/-! ## Numbers -/

theorem toDigits_head_ne_zero {value : ℕ} (hvalue : 0 < value) :
    ∃ c rest, Nat.toDigits 10 value = c :: rest ∧ c ≠ '0' := by
  induction value using Nat.strong_induction_on with
  | _ value ih =>
      rw [Nat.toDigits_eq_if (by omega)]
      split
      case isTrue hsmall =>
        refine ⟨_, [], rfl, ?_⟩
        have hdigits : ∀ digit : Fin 10, digit.val ≠ 0 →
            Nat.digitChar digit ≠ '0' := by decide
        exact hdigits ⟨value, hsmall⟩ (by simp; omega)
      case isFalse hlarge =>
        obtain ⟨c, rest, hdigits, hc⟩ := ih (value / 10) (by omega) (by omega)
        exact ⟨c, _, by rw [hdigits]; rfl, hc⟩

theorem all_isDigit_toDigits (value : ℕ) :
    (Nat.toDigits 10 value).all Char.isDigit = true := by
  rw [List.all_eq_true]
  intro c hc
  exact Nat.isDigit_of_mem_toDigits (by omega) (by omega) hc

theorem isNumberChar_of_isDigit {c : Char} (hc : c.isDigit = true) :
    JsonText.isNumberChar c = true := by
  simp [JsonText.isNumberChar, hc]

theorem integerPart_toDigits (value : ℕ) :
    JsonText.integerPart (Nat.toDigits 10 value) = true := by
  rcases Nat.eq_zero_or_pos value with rfl | hpos
  · rfl
  · obtain ⟨c, rest, hdigits, hc⟩ := toDigits_head_ne_zero hpos
    have hall := all_isDigit_toDigits value
    rw [hdigits, List.all_cons, Bool.and_eq_true] at hall
    have hrest : rest.dropWhile Char.isDigit = [] := by
      rw [← List.append_nil rest,
        List.dropWhile_append_of_pos (List.all_eq_true.mp hall.2)]
      rfl
    rw [hdigits, JsonText.integerPart, if_neg hc, hall.1, hrest]
    rfl

theorem isNumber_toDigits (value : ℕ) :
    JsonText.isNumber (Nat.toDigits 10 value) = true := by
  have hpart := integerPart_toDigits value
  have hall := all_isDigit_toDigits value
  cases hdigits : Nat.toDigits 10 value with
  | nil => exact absurd hdigits Nat.toDigits_ne_nil
  | cons c rest =>
      rw [hdigits] at hpart hall
      have hminus : c ≠ '-' := by
        rintro rfl
        simp at hall
      rw [JsonText.isNumber, if_neg hminus, hpart]

/-- The text of a natural number. -/
def naturalText (value : ℕ) : NumberText where
  chars := Nat.toDigits 10 value
  symbols := by
    have hall := List.all_eq_true.mp (all_isDigit_toDigits value)
    exact List.all_eq_true.mpr fun c hc => isNumberChar_of_isDigit (hall c hc)
  grammar := isNumber_toDigits value

/-- The text of a negative integer. -/
def negativeText (value : ℕ) : NumberText where
  chars := '-' :: Nat.toDigits 10 value
  symbols := by
    have hall := List.all_eq_true.mp (all_isDigit_toDigits value)
    rw [List.all_cons, Bool.and_eq_true]
    exact ⟨by decide, List.all_eq_true.mpr
      fun c hc => isNumberChar_of_isDigit (hall c hc)⟩
  grammar := by
    rw [JsonText.isNumber, if_pos rfl]
    exact integerPart_toDigits value

/-- The number written in digits only. -/
def natural (number : NumberText) : Option ℕ :=
  if number.chars.all Char.isDigit then
    some (Nat.ofDigitChars 10 number.chars 0)
  else none

/-- The number written as a minus sign and digits, without its sign. -/
def negated (number : NumberText) : Option ℕ :=
  match number.chars with
  | [] => none
  | c :: rest =>
      if c = '-' ∧ rest.all Char.isDigit then
        some (Nat.ofDigitChars 10 rest 0)
      else none

@[simp] theorem natural_naturalText (value : ℕ) :
    natural (naturalText value) = some value := by
  simp only [natural, naturalText, all_isDigit_toDigits, if_true,
    Nat.ofDigitChars_ten_toDigits]

theorem natural_negativeText (value : ℕ) :
    natural (negativeText value) = none := by
  simp [natural, negativeText]

theorem negated_negativeText (value : ℕ) :
    negated (negativeText value) = some value := by
  simp only [negated, negativeText, all_isDigit_toDigits, true_and, if_true,
    Nat.ofDigitChars_ten_toDigits]

/-- How doubles are written and read: what is written is in range. -/
structure FloatText where
  print : UInt64 → NumberText
  read : NumberText → Option UInt64
  read_print : ∀ bits, (read (print bits)).isSome

variable (floats : FloatText)

def Number.toText : Number → NumberText
  | .posInt value => naturalText value.toNat
  | .negInt value =>
      match value.toInt with
      | .ofNat value => naturalText value
      | .negSucc value => negativeText (value + 1)
  | .float bits => floats.print bits

/-- Digits that fit are an integer; anything else is a double. -/
def Number.ofText (text : NumberText) : Option Number :=
  match natural text with
  | some value =>
      if value < 2 ^ 64 then some (.posInt (UInt64.ofNat value))
      else (floats.read text).map .float
  | none =>
      match negated text with
      | some value =>
          if 0 < value ∧ value ≤ 2 ^ 63 then
            some (.negInt (Int64.ofInt (-value)))
          else (floats.read text).map .float
      | none => (floats.read text).map .float

theorem Number.ofText_toText_isSome (number : Number) :
    (Number.ofText floats (number.toText floats)).isSome := by
  cases number with
  | posInt value =>
      have hlt : value.toNat < 2 ^ 64 := value.toNat_lt_size
      simp only [Number.toText, Number.ofText, natural_naturalText, hlt,
        if_true, Option.isSome_some]
  | negInt value =>
      have hlow : -2 ^ 63 ≤ value.toInt := value.le_toInt
      have hhigh : value.toInt < 2 ^ 63 := value.toInt_lt
      cases hvalue : value.toInt with
      | ofNat n =>
          have hlt : n < 2 ^ 64 := by
            rw [hvalue, Int.ofNat_eq_natCast] at hhigh
            omega
          simp only [Number.toText, Number.ofText, hvalue,
            natural_naturalText, hlt, if_true, Option.isSome_some]
      | negSucc n =>
          have hle : 0 < n + 1 ∧ n + 1 ≤ 2 ^ 63 := by
            rw [hvalue] at hlow
            omega
          simp only [Number.toText, Number.ofText, hvalue,
            natural_negativeText, negated_negativeText, hle, and_self,
            if_true, Option.isSome_some]
  | float bits =>
      have hread := floats.read_print bits
      simp only [Number.toText, Number.ofText]
      split
      · split
        · rfl
        · simpa using hread
      · split
        · split
          · rfl
          · simpa using hread
        · simpa using hread

/-! ## Trees -/

namespace Value

mutual

/-- The tree of the text a value is printed as. -/
def toDoc : Value → Doc
  | .null => .null
  | .bool value => .bool value
  | .number value => .number (value.toText floats)
  | .string value => .string (JsonText.ofString value)
  | .array items => .array (toDocs items)
  | .object members => .object (toMembers members)

def toDocs : List Value → List Doc
  | [] => []
  | item :: rest => toDoc item :: toDocs rest

def toMembers : List (String × Value) → List (List StringUnit × Doc)
  | [] => []
  | (name, value) :: rest =>
      (JsonText.ofString name, toDoc value) :: toMembers rest

end

mutual

/-- A tree as a value, whatever its depth; a repeated name keeps its last
value. -/
def ofDoc : Doc → Option Value
  | .null => some .null
  | .bool value => some (.bool value)
  | .number text => (Number.ofText floats text).map .number
  | .string units => (JsonText.text units).map .string
  | .array items => (ofDocs items).map .array
  | .object members => (ofMembers members []).map .object

def ofDocs : List Doc → Option (List Value)
  | [] => some []
  | item :: rest => do
      let value ← ofDoc item
      let values ← ofDocs rest
      some (value :: values)

def ofMembers : List (List StringUnit × Doc) → Map → Option Map
  | [], members => some members
  | (units, doc) :: rest, members => do
      let name ← JsonText.text units
      let value ← ofDoc doc
      ofMembers rest (members.insert name value)

end

theorem ofDoc_toDoc_isSome (value : Value) :
    (ofDoc floats (toDoc floats value)).isSome := by
  induction value using Value.induction with
  | null => rfl
  | bool value => rfl
  | number value =>
      simpa [toDoc, ofDoc] using Number.ofText_toText_isSome floats value
  | string value => simp [toDoc, ofDoc]
  | array items ih =>
      have hitems : (ofDocs floats (toDocs floats items)).isSome := by
        induction items with
        | nil => rfl
        | cons item rest ihrest =>
            obtain ⟨value, hvalue⟩ := Option.isSome_iff_exists.mp
              (ih item (by simp))
            obtain ⟨values, hvalues⟩ := Option.isSome_iff_exists.mp
              (ihrest fun other hother => ih other (by simp [hother]))
            simp [toDocs, ofDocs, hvalue, hvalues]
      simpa [toDoc, ofDoc] using hitems
  | object members ih =>
      have hmembers : ∀ earlier : Map,
          (ofMembers floats (toMembers floats members) earlier).isSome := by
        induction members with
        | nil => intro earlier; rfl
        | cons member rest ihrest =>
            intro earlier
            obtain ⟨name, inner⟩ := member
            obtain ⟨value, hvalue⟩ := Option.isSome_iff_exists.mp
              (ih (name, inner) (by simp))
            have hrest := ihrest
              (fun other hother => ih other (by simp [hother]))
              (Map.insert earlier name value)
            simpa [toMembers, ofMembers, hvalue] using hrest
      simpa [toDoc, ofDoc] using hmembers []

theorem nesting_toDoc (value : Value) :
    (toDoc floats value).nesting = value.nesting := by
  induction value using Value.induction with
  | null => rfl
  | bool value => rfl
  | number value => rfl
  | string value => rfl
  | array items ih =>
      have hitems : Doc.nestingItems (toDocs floats items) =
          nestingItems items := by
        induction items with
        | nil => rfl
        | cons item rest ihrest =>
            rw [toDocs, Doc.nestingItems, nestingItems, ih item (by simp),
              ihrest fun other hother => ih other (by simp [hother])]
      rw [toDoc, Doc.nesting, hitems, nesting]
  | object members ih =>
      have hmembers : Doc.nestingMembers (toMembers floats members) =
          nestingMembers members := by
        induction members with
        | nil => rfl
        | cons member rest ihrest =>
            obtain ⟨name, inner⟩ := member
            rw [toMembers, Doc.nestingMembers, nestingMembers,
              ih (name, inner) (by simp),
              ihrest fun other hother => ih other (by simp [hother])]
      rw [toDoc, Doc.nesting, hmembers, nesting]

end Value

/-- The parser's recursion limit: text this deep is refused. -/
def recursionLimit : ℕ := 128

/-- Read a tree as a value with some brackets already open around it. -/
def readValue (depth : ℕ) (doc : Doc) : Option Value :=
  if depth + doc.nesting < recursionLimit then Value.ofDoc floats doc
  else none

/-- A printed value is read back exactly when it is not too deep. -/
theorem readValue_toDoc_isSome_iff (depth : ℕ) (value : Value) :
    (readValue floats depth (value.toDoc floats)).isSome ↔
      depth + value.nesting < recursionLimit := by
  rw [readValue, Value.nesting_toDoc]
  split
  case isTrue hdepth =>
    simp [hdepth, Value.ofDoc_toDoc_isSome]
  case isFalse hdepth =>
    simp [hdepth]

end Serde
