import Mathlib.Tactic

/-!
# Text as UTF-8 bytes

Byte lists, the UTF-8 encoding of a string and its partial inverse.  The one
fact lines need is that an encoding holds the newline byte exactly where the
string holds the newline character.
-/

namespace ByteText

abbrev Bytes := List UInt8

/-- The newline byte. -/
def newline : UInt8 := 10

/-- The carriage return byte. -/
def carriageReturn : UInt8 := 13

/-- The UTF-8 bytes of a string. -/
def encode (text : String) : Bytes :=
  text.toList.flatMap String.utf8EncodeChar

/-- The string a byte list encodes, when it is valid UTF-8. -/
def decode (bytes : Bytes) : Option String :=
  String.fromUTF8? ⟨bytes.toArray⟩

@[simp] theorem encode_append (left right : String) :
    encode (left ++ right) = encode left ++ encode right := by
  simp [encode]

theorem toByteArray_eq (text : String) :
    (⟨(encode text).toArray⟩ : ByteArray) = text.toByteArray := by
  rw [← String.utf8Encode_toList]
  apply ByteArray.ext
  simp [encode, List.utf8Encode]

@[simp] theorem decode_encode (text : String) :
    decode (encode text) = some text := by
  unfold decode
  rw [toByteArray_eq, String.fromUTF8?, dif_pos text.isValidUTF8]
  rfl

/-- Decoded text encodes to the bytes it was decoded from. -/
theorem encode_of_decode {bytes : Bytes} {text : String}
    (htext : decode bytes = some text) : encode text = bytes := by
  unfold decode String.fromUTF8? at htext
  split at htext
  case isTrue hvalid =>
    cases htext
    have hbytes := toByteArray_eq (String.fromUTF8 ⟨bytes.toArray⟩ hvalid)
    have harray : (encode (String.fromUTF8 ⟨bytes.toArray⟩ hvalid)).toArray =
        bytes.toArray := congrArg ByteArray.data hbytes
    simpa using harray
  case isFalse => cases htext

theorem encode_injective : Function.Injective encode := by
  intro left right heq
  have hleft := decode_encode left
  rw [heq, decode_encode] at hleft
  exact (Option.some.inj hleft).symm

theorem newline_ne_ofNat {value : ℕ} (hlow : 128 ≤ value)
    (hhigh : value < 256) : newline ≠ UInt8.ofNat value := by
  intro heq
  have hvalue := congrArg UInt8.toNat heq
  simp [newline] at hvalue
  omega

theorem eq_newline_of_mem_utf8EncodeChar {c : Char}
    (hc : newline ∈ String.utf8EncodeChar c) : c = '\n' := by
  fun_cases String.utf8EncodeChar c with
  | case1 v hv =>
      rw [String.utf8EncodeChar, if_pos hv, List.mem_singleton] at hc
      have hvalue : newline.toNat = v % 256 := by
        rw [hc, UInt8.toNat_ofNat']
      have hnewline : v = 10 := by
        have hten : newline.toNat = 10 := rfl
        omega
      exact Char.ext (UInt32.toNat_inj.mp hnewline)
  | case2 v hv hv' =>
      rw [String.utf8EncodeChar, if_neg hv, if_pos hv'] at hc
      simp only [List.mem_cons, List.not_mem_nil, or_false] at hc
      rcases hc with h | h <;>
        exact absurd h (newline_ne_ofNat (by omega) (by omega))
  | case3 v hv hv' hv'' =>
      rw [String.utf8EncodeChar, if_neg hv, if_neg hv', if_pos hv''] at hc
      simp only [List.mem_cons, List.not_mem_nil, or_false] at hc
      rcases hc with h | h | h <;>
        exact absurd h (newline_ne_ofNat (by omega) (by omega))
  | case4 v hv hv' hv'' =>
      rw [String.utf8EncodeChar, if_neg hv, if_neg hv', if_neg hv''] at hc
      simp only [List.mem_cons, List.not_mem_nil, or_false] at hc
      rcases hc with h | h | h | h <;>
        exact absurd h (newline_ne_ofNat (by omega) (by omega))

/-- A string without a newline is written without the newline byte. -/
theorem newline_notMem_encode {text : String}
    (htext : '\n' ∉ text.toList) : newline ∉ encode text := by
  intro hmem
  obtain ⟨c, hc, hbyte⟩ := List.mem_flatMap.mp hmem
  have hne : c ≠ '\n' := fun heq => htext (heq ▸ hc)
  exact hne (eq_newline_of_mem_utf8EncodeChar hbyte)

end ByteText
