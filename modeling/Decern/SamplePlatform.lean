import Decern.LedgerRecord
import Mathlib.Tactic

/-!
# A concrete platform

A platform on which closed statements are checked.  Its signature is the key
followed by the first bytes of the message, so that a signature verifies under
one key only; its digests have the right length and nothing more is asked of
them.
-/

namespace Decern

open ByteText (Bytes)
open Serde (FloatText Value)

def sampleFloats : FloatText where
  print bits := Serde.naturalText bits.toNat
  read text := (Serde.natural text).map UInt64.ofNat
  read_print bits := by simp

def sampleDigest (bytes : Bytes) : Bytes :=
  (List.range 32).map fun position => UInt8.ofNat
    (bytes.foldl (fun sum byte => 31 * sum + byte.toNat + position) 7)

def sampleSign (key : SigningKey) (message : Bytes) : Signature :=
  key ++ Vector.ofFn fun position : Fin 32 => message.getD position 0

def samplePlatform : Platform where
  floats := sampleFloats
  serdeMessage _ := "unreadable"
  sha256 := sampleDigest
  verifyingKey key := key
  sign := sampleSign
  verifyStrict key message sig := sig == sampleSign key message
  encodeBase64 := HexText.encode
  decodeBase64 := HexText.decode
  sha256_length bytes := by simp [sampleDigest]
  verify_sign _ _ := by simp
  decode_encode := HexText.decode_encode

/-- The key whose bytes are all one value. -/
def sampleKey (value : UInt8) : SigningKey :=
  Vector.replicate 32 value

theorem sampleKey_injective : Function.Injective sampleKey := by
  intro left right heq
  have hhead := congrArg (fun key : SigningKey => key.toList.head?) heq
  simpa [sampleKey] using hhead

/-- Arrays within arrays. -/
def nestedArrays : ℕ → Value
  | 0 => .null
  | depth + 1 => .array [nestedArrays depth]

@[simp] theorem nesting_nestedArrays (depth : ℕ) :
    (nestedArrays depth).nesting = depth := by
  induction depth with
  | zero => rfl
  | succ depth ih =>
      simp only [nestedArrays, Value.nesting, Value.nestingItems, ih]
      omega

/-- An entry that holds nothing but its context. -/
def sampleEntry (context : Value) : Entry :=
  { context }

end Decern
