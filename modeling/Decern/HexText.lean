import Decern.ByteText
import Mathlib.Tactic

/-!
# Hexadecimal text

Lowercase digits two to a byte, read back in either case, and the four-digit
form of a code unit.
-/

namespace HexText

open ByteText (Bytes)

/-- The value of one hexadecimal digit. -/
def digitValue (c : Char) : Option ℕ :=
  if c.isDigit then some (c.toNat - '0'.toNat)
  else if 'a' ≤ c ∧ c ≤ 'f' then some (c.toNat - 'a'.toNat + 10)
  else if 'A' ≤ c ∧ c ≤ 'F' then some (c.toNat - 'A'.toNat + 10)
  else none

theorem digitValue_digitChar {value : ℕ} (hvalue : value < 16) :
    digitValue (Nat.digitChar value) = some value := by
  have hdigits : ∀ digit : Fin 16,
      digitValue (Nat.digitChar digit) = some digit.val := by decide
  exact hdigits ⟨value, hvalue⟩

theorem toNat_digitChar {value : ℕ} (hvalue : value < 16) :
    (Nat.digitChar value).toNat =
      if value < 10 then value + 48 else value + 87 := by
  have hdigits : ∀ digit : Fin 16, (Nat.digitChar digit).toNat =
      if digit.val < 10 then digit.val + 48 else digit.val + 87 := by decide
  exact hdigits ⟨value, hvalue⟩

theorem isUpper_iff_toNat {c : Char} :
    c.isUpper = true ↔ 65 ≤ c.toNat ∧ c.toNat ≤ 90 := by
  change decide (c.val ≥ 'A'.val ∧ c.val ≤ 'Z'.val) = true ↔ _
  simp [UInt32.le_iff_toNat_le, ← Char.toNat_val]

/-- A digit is below sixteen, and is written as it was read unless it was a
capital. -/
theorem digitValue_eq_some {c : Char} {digit : ℕ}
    (hc : digitValue c = some digit) :
    digit < 16 ∧ (Nat.digitChar digit = c ↔ c.isUpper = false) := by
  have hwritten : digit < 16 →
      (Nat.digitChar digit = c ↔
        (if digit < 10 then digit + 48 else digit + 87) = c.toNat) := by
    intro hdigit
    rw [← Char.toNat_inj, toNat_digitChar hdigit]
  rw [← Bool.not_eq_true, isUpper_iff_toNat]
  unfold digitValue at hc
  split at hc
  case isTrue hdec =>
    have hbounds : 48 ≤ c.toNat ∧ c.toNat ≤ 57 := Char.isDigit_iff_toNat.mp hdec
    have hvalue : digit = c.toNat - 48 := (Option.some.inj hc).symm
    have hdigit : digit < 16 := by omega
    refine ⟨hdigit, ?_⟩
    rw [hwritten hdigit]
    split <;> omega
  case isFalse =>
    split at hc
    case isTrue hlower =>
      have hbounds : 97 ≤ c.toNat ∧ c.toNat ≤ 102 := hlower
      have hvalue : digit = c.toNat - 97 + 10 := (Option.some.inj hc).symm
      have hdigit : digit < 16 := by omega
      refine ⟨hdigit, ?_⟩
      rw [hwritten hdigit]
      split <;> omega
    case isFalse =>
      split at hc
      case isTrue hupper =>
        have hbounds : 65 ≤ c.toNat ∧ c.toNat ≤ 70 := hupper
        have hvalue : digit = c.toNat - 65 + 10 :=
          (Option.some.inj hc).symm
        have hdigit : digit < 16 := by omega
        refine ⟨hdigit, ?_⟩
        rw [hwritten hdigit]
        split <;> omega
      case isFalse => cases hc

/-! ## Bytes -/

/-- The two digits of one byte, high half first. -/
def bytePair (byte : UInt8) : List Char :=
  [Nat.digitChar (byte.toNat / 16), Nat.digitChar (byte.toNat % 16)]

/-- The digits of a byte list. -/
def encodeChars (bytes : Bytes) : List Char :=
  bytes.flatMap bytePair

def encode (bytes : Bytes) : String :=
  String.ofList (encodeChars bytes)

/-- The bytes of an even number of digits. -/
def decodeChars : List Char → Option Bytes
  | [] => some []
  | high :: low :: rest => do
      let highValue ← digitValue high
      let lowValue ← digitValue low
      let bytes ← decodeChars rest
      some (UInt8.ofNat (highValue * 16 + lowValue) :: bytes)
  | [_] => none

def decode (text : String) : Option Bytes :=
  decodeChars text.toList

theorem decodeChars_encodeChars (bytes : Bytes) :
    decodeChars (encodeChars bytes) = some bytes := by
  induction bytes with
  | nil => rfl
  | cons byte rest ih =>
      have hbyte : byte.toNat < 256 := byte.toNat_lt_size
      have hhigh := digitValue_digitChar
        (show byte.toNat / 16 < 16 by omega)
      have hlow := digitValue_digitChar
        (show byte.toNat % 16 < 16 by omega)
      have hvalue : byte.toNat / 16 * 16 + byte.toNat % 16 = byte.toNat := by
        omega
      have hchars : encodeChars (byte :: rest) =
          Nat.digitChar (byte.toNat / 16) ::
            Nat.digitChar (byte.toNat % 16) :: encodeChars rest := rfl
      rw [hchars, decodeChars, hhigh, hlow, ih]
      simp only [Option.bind_eq_bind, Option.bind_some, hvalue,
        UInt8.ofNat_toNat]

@[simp] theorem decode_encode (bytes : Bytes) :
    decode (encode bytes) = some bytes := by
  simp [decode, encode, decodeChars_encodeChars]

/-- Every byte of the text is one of its digits. -/
theorem length_encode_hex (bytes : Bytes) :
    (ByteText.encode (encode bytes)).length = 2 * bytes.length := by
  have hdigit : ∀ digit : Fin 16,
      (String.utf8EncodeChar (Nat.digitChar digit)).length = 1 := by decide
  have hpair : ∀ byte : UInt8,
      ((bytePair byte).flatMap String.utf8EncodeChar).length = 2 := by
    intro byte
    have hbyte : byte.toNat < 256 := byte.toNat_lt_size
    have hhigh := hdigit ⟨byte.toNat / 16, by omega⟩
    have hlow := hdigit ⟨byte.toNat % 16, by omega⟩
    simp only at hhigh hlow
    simp [bytePair, hhigh, hlow]
  rw [ByteText.encode, encode, String.toList_ofList,
    encodeChars, List.flatMap_assoc, List.length_flatMap]
  simp [hpair, mul_comm]

/-- Bytes are written as they were read exactly when no digit was a
capital. -/
theorem encodeChars_eq_iff {chars : List Char} {bytes : Bytes}
    (hdecode : decodeChars chars = some bytes) :
    encodeChars bytes = chars ↔ ∀ c ∈ chars, c.isUpper = false := by
  induction chars using decodeChars.induct generalizing bytes with
  | case1 =>
      cases hdecode
      simp [encodeChars]
  | case2 high low rest ih =>
      simp only [decodeChars, Option.bind_eq_bind, Option.bind_eq_some_iff,
        Option.some.injEq] at hdecode
      obtain ⟨first, hfirst, second, hsecond, others, hothers, rfl⟩ :=
        hdecode
      obtain ⟨hsmall, hhigh⟩ := digitValue_eq_some hfirst
      obtain ⟨hbelow, hlow⟩ := digitValue_eq_some hsecond
      have hbyte : (UInt8.ofNat (first * 16 + second)).toNat =
          first * 16 + second := by
        rw [UInt8.toNat_ofNat']
        omega
      have hpair : encodeChars
          (UInt8.ofNat (first * 16 + second) :: others) =
            Nat.digitChar first :: Nat.digitChar second ::
              encodeChars others := by
        have hupper : (first * 16 + second) / 16 = first := by omega
        have hlower : (first * 16 + second) % 16 = second := by omega
        rw [encodeChars, List.flatMap_cons, bytePair, hbyte, hupper, hlower]
        rfl
      rw [hpair]
      simp only [List.cons.injEq, List.mem_cons, forall_eq_or_imp, hhigh,
        hlow, ih hothers]
  | case3 c => cases hdecode

theorem eq_empty_of_decode {text : String} (hdecode : decode text = some []) :
    text = "" := by
  rw [← String.toList_inj]
  unfold decode at hdecode
  cases hchars : text.toList with
  | nil => rfl
  | cons high rest =>
      rw [hchars] at hdecode
      cases rest with
      | nil => cases hdecode
      | cons low rest =>
          simp only [decodeChars, Option.bind_eq_bind,
            Option.bind_eq_some_iff] at hdecode
          obtain ⟨first, _, second, _, others, _, hnil⟩ := hdecode
          cases hnil

theorem encode_eq_iff {text : String} {bytes : Bytes}
    (hdecode : decode text = some bytes) :
    encode bytes = text ↔ ∀ c ∈ text.toList, c.isUpper = false := by
  rw [← encodeChars_eq_iff hdecode, ← String.toList_inj, encode,
    String.toList_ofList]

theorem encode_injective : Function.Injective encode := by
  intro left right heq
  have hleft := decode_encode left
  rw [heq, decode_encode] at hleft
  exact (Option.some.inj hleft).symm

/-! ## Code units -/

/-- The four digits of a sixteen-bit unit. -/
def unitDigits (value : ℕ) : List Char :=
  [Nat.digitChar (value / 4096 % 16), Nat.digitChar (value / 256 % 16),
    Nat.digitChar (value / 16 % 16), Nat.digitChar (value % 16)]

/-- The sixteen-bit unit four digits denote. -/
def unitValue (a b c d : Char) : Option ℕ := do
  let a ← digitValue a
  let b ← digitValue b
  let c ← digitValue c
  let d ← digitValue d
  some (((a * 16 + b) * 16 + c) * 16 + d)

theorem unitValue_unitDigits {value : ℕ} (hvalue : value < 65536) :
    unitValue (Nat.digitChar (value / 4096 % 16))
        (Nat.digitChar (value / 256 % 16))
        (Nat.digitChar (value / 16 % 16))
        (Nat.digitChar (value % 16)) = some value := by
  have hdigits : ∀ n : ℕ, digitValue (Nat.digitChar (n % 16)) =
      some (n % 16) :=
    fun n => digitValue_digitChar (Nat.mod_lt n (by omega))
  have hsum : ((value / 4096 % 16 * 16 + value / 256 % 16) * 16 +
      value / 16 % 16) * 16 + value % 16 = value := by omega
  simp [unitValue, hdigits, hsum]

end HexText
