import Decern.LedgerCommitments
import Decern.SeparatedFields
import Mathlib.Tactic

/-!
# What one signature commits to

The bytes of a commitment are its tag, its root and its two numbers, with a
separator between them.  The tag and the numbers hold no separator, so they are
the first field and the last two, whatever the root in between holds.
-/

namespace Decern

open ByteText (Bytes)
open SeparatedFields (append_sep_inj append_sep_inj_last)

/-! ## Commitments -/

inductive CommitmentKind where
  | checkpoint
  | treeHead
  deriving DecidableEq, Repr

def CommitmentKind.tag : CommitmentKind → String
  | .checkpoint => "decern-ledger-checkpoint"
  | .treeHead => "decern-ledger-tree-head"

structure Commitment where
  kind : CommitmentKind
  root : String
  count : UInt64
  tsMs : UInt64
  deriving DecidableEq, Repr

namespace Commitment

def bytes (c : Commitment) : Bytes :=
  match c.kind with
  | .checkpoint => checkpointBytes c.root c.count c.tsMs
  | .treeHead => treeHeadBytes c.root c.count c.tsMs

theorem bytes_eq (c : Commitment) :
    c.bytes = commitmentBytes c.kind.tag c.root c.count c.tsMs := by
  obtain ⟨kind, root, count, tsMs⟩ := c
  cases kind <;> rfl

def separator : Char := '\x1f'

theorem separator_notMem_digits (value : ℕ) :
    separator ∉ (toString value).toList := by
  intro hmem
  rw [Nat.toString_eq_ofList_toDigits, String.toList_ofList] at hmem
  have hdigit := Nat.isDigit_of_mem_toDigits (by omega) (by omega) hmem
  exact absurd hdigit (by decide)

theorem toString_injective {value other : ℕ}
    (hsame : (toString value).toList = (toString other).toList) :
    value = other := by
  simp only [Nat.toString_eq_ofList_toDigits, String.toList_ofList] at hsame
  calc
    value = Nat.ofDigitChars 10 (Nat.toDigits 10 value) 0 :=
      Nat.ofDigitChars_ten_toDigits.symm
    _ = Nat.ofDigitChars 10 (Nat.toDigits 10 other) 0 := by rw [hsame]
    _ = other := Nat.ofDigitChars_ten_toDigits

theorem separator_notMem_tag (kind : CommitmentKind) :
    separator ∉ kind.tag.toList := by
  cases kind <;> decide

theorem tag_injective {kind other : CommitmentKind}
    (hsame : kind.tag.toList = other.tag.toList) : kind = other := by
  cases kind <;> cases other <;> first | rfl | exact absurd hsame (by decide)

/-- The characters of a commitment, field by field. -/
theorem toList_fields (c : Commitment) :
    (c.kind.tag ++ "\x1f" ++ c.root ++ "\x1f" ++ toString c.count.toNat ++
      "\x1f" ++ toString c.tsMs.toNat).toList =
    (c.kind.tag.toList ++ separator :: (c.root.toList ++ separator ::
      (toString c.count.toNat).toList)) ++ separator ::
        (toString c.tsMs.toNat).toList := by
  have hseparator : "\x1f".toList = [separator] := rfl
  simp only [String.toList_append, hseparator, List.append_assoc,
    List.cons_append, List.nil_append]

theorem bytes_injective : Function.Injective bytes := by
  intro left right hsame
  rw [bytes_eq, bytes_eq] at hsame
  have htext := congrArg String.toList (ByteText.encode_injective hsame)
  rw [toList_fields, toList_fields] at htext
  obtain ⟨hfront, hts⟩ := append_sep_inj_last (separator_notMem_digits _)
    (separator_notMem_digits _) htext
  obtain ⟨htag, hmiddle⟩ := append_sep_inj (separator_notMem_tag left.kind)
    (separator_notMem_tag right.kind) hfront
  obtain ⟨hroot, hcount⟩ := append_sep_inj_last (separator_notMem_digits _)
    (separator_notMem_digits _) hmiddle
  have hkinds := tag_injective htag
  have hroots := String.toList_inj.mp hroot
  have hcounts := UInt64.toNat_inj.mp (toString_injective hcount)
  have htimes := UInt64.toNat_inj.mp (toString_injective hts)
  obtain ⟨kind, root, count, tsMs⟩ := left
  obtain ⟨kind', root', count', tsMs'⟩ := right
  simp only at hkinds hroots hcounts htimes
  rw [hkinds, hroots, hcounts, htimes]

/-! ## Thirty-two bytes -/

/-- The bytes of the root and of the two numbers. -/
def size (c : Commitment) : ℕ :=
  (ByteText.encode c.root).length +
    (ByteText.encode (toString c.count.toNat)).length +
    (ByteText.encode (toString c.tsMs.toNat)).length

theorem length_bytes (c : Commitment) :
    c.bytes.length = c.size + match c.kind with
      | .checkpoint => 27
      | .treeHead => 26 := by
  have hseparator : (ByteText.encode "\x1f").length = 1 := by decide
  have hcheckpoint :
      (ByteText.encode CommitmentKind.checkpoint.tag).length = 24 := by decide
  have htreeHead :
      (ByteText.encode CommitmentKind.treeHead.tag).length = 23 := by decide
  obtain ⟨kind, root, count, tsMs⟩ := c
  rw [bytes_eq, commitmentBytes]
  simp only [ByteText.encode_append, List.length_append, hseparator, size]
  cases kind with
  | checkpoint =>
      simp only [hcheckpoint]
      omega
  | treeHead =>
      simp only [htreeHead]
      omega

/-- The fields leave the commitment shorter or longer than a hash. -/
def SizedApart (c : Commitment) : Prop :=
  match c.kind with
  | .checkpoint => c.size ≠ 5
  | .treeHead => c.size ≠ 6

theorem length_bytes_ne_iff (c : Commitment) :
    c.bytes.length ≠ 32 ↔ c.SizedApart := by
  rw [length_bytes, SizedApart]
  cases c.kind with
  | checkpoint =>
      simp only
      omega
  | treeHead =>
      simp only
      omega

/-- A root no shorter than a digest's hex leaves it longer. -/
theorem sizedApart_of_root {c : Commitment}
    (hroot : 64 ≤ (ByteText.encode c.root).length) : c.SizedApart := by
  rw [← length_bytes_ne_iff, length_bytes, size]
  omega

/-! ## Signatures -/

variable (P : Platform)

/-- The signature over a commitment, as it is stored. -/
def signed (key : SigningKey) (c : Commitment) : String :=
  P.encodeBase64 (P.sign key c.bytes).toList

/-- A stored signature, verified as one over the commitment. -/
def verifies (key : VerifyingKey) (sigB64 : String) (c : Commitment) : Bool :=
  match c.kind with
  | .checkpoint =>
      verifyCheckpointSig P
        { root := c.root
          count := c.count
          tsMs := c.tsMs
          pubkeyHex := keyFingerprint key
          sigB64 } key
  | .treeHead =>
      verifyTreeHeadSig P
        { merkleRoot := c.root
          treeSize := c.count
          tsMs := c.tsMs
          pubkeyHex := keyFingerprint key
          sigB64 } key

theorem verifies_encode (key : VerifyingKey) (sig : Signature)
    (c : Commitment) :
    c.verifies P key (P.encodeBase64 sig.toList) =
      P.verifyStrict key c.bytes sig := by
  unfold verifies bytes
  cases c.kind with
  | checkpoint =>
      simp [verifyCheckpointSig, P.decode_encode, toSignature_toList]
  | treeHead =>
      simp [verifyTreeHeadSig, P.decode_encode, toSignature_toList]

end Commitment

/-- Of these messages, the key's signature over one verifies for no other. -/
def Platform.SignsApart (P : Platform) (key : SigningKey)
    (messages : List Bytes) : Prop :=
  ∀ signed ∈ messages, ∀ read ∈ messages,
    P.verifyStrict (P.verifyingKey key) read (P.sign key signed) = true →
      read = signed

/-- What one signature can be read as. -/
structure SignedApart (P : Platform) (key : SigningKey)
    (c other : Commitment) (hash : Bytes) : Prop where
  commitment : other.verifies P (P.verifyingKey key) (c.signed P key) = true →
    other = c
  asRecord : P.verifyStrict (P.verifyingKey key) hash
    (P.sign key c.bytes) = false
  ofRecord : c.verifies P (P.verifyingKey key)
    (P.encodeBase64 (P.sign key hash).toList) = false

theorem signedApart {P : Platform} {key : SigningKey} {c other : Commitment}
    {hash : Bytes} (hhash : hash.length = 32) (hapart : c.SizedApart)
    (hsigns : P.SignsApart key [c.bytes, other.bytes, hash]) :
    SignedApart P key c other hash := by
  have hne : hash ≠ c.bytes := by
    rintro rfl
    exact c.length_bytes_ne_iff.mpr hapart hhash
  constructor
  · intro hverifies
    rw [Commitment.signed, Commitment.verifies_encode] at hverifies
    exact Commitment.bytes_injective
      (hsigns c.bytes (by simp) other.bytes (by simp) hverifies)
  · apply Bool.eq_false_of_not_eq_true
    intro hverifies
    exact hne (hsigns c.bytes (by simp) hash (by simp) hverifies)
  · rw [Commitment.verifies_encode]
    apply Bool.eq_false_of_not_eq_true
    intro hverifies
    exact hne (hsigns hash (by simp) c.bytes (by simp) hverifies).symm

/-! ## The law -/

/-- The bytes of a commitment determine it.  They are no record's hash, and a
key that signs each of these messages apart signs the commitment apart from
every other and from every record, exactly when its fields do not bring it to
thirty-two bytes. -/
theorem commitments_apart_iff (c : Commitment) :
    ((∀ other : Commitment, c.bytes = other.bytes → c = other) ∧
      c.bytes.length ≠ 32 ∧
      ∀ (P : Platform) (key : SigningKey) (other : Commitment)
        (entry : Bytes) (prev : String),
        P.SignsApart key [c.bytes, other.bytes, chainHash P entry prev] →
          SignedApart P key c other (chainHash P entry prev)) ↔
      c.SizedApart := by
  constructor
  · intro happart
    exact c.length_bytes_ne_iff.mp happart.2.1
  · intro hsized
    refine ⟨?_, c.length_bytes_ne_iff.mpr hsized, ?_⟩
    · intro other hsame
      exact Commitment.bytes_injective hsame
    · intro P key other entry prev hsigns
      exact signedApart (P.sha256_length _) hsized hsigns

def sampleCheckpointed : Commitment where
  kind := .checkpoint
  root := ""
  count := 0
  tsMs := 0

def sampleHeaded : Commitment :=
  { sampleCheckpointed with kind := .treeHead }

theorem commitments_apart_iff_sample :
    SignedApart samplePlatform (sampleKey 1) sampleCheckpointed sampleHeaded
      (chainHash samplePlatform [] genesis) := by
  have hsized : sampleCheckpointed.SizedApart := by
    rw [← Commitment.length_bytes_ne_iff]
    decide +kernel
  apply ((commitments_apart_iff sampleCheckpointed).mpr hsized).2.2
  unfold Platform.SignsApart
  decide +kernel

/-- A checkpoint over a root of three bytes has thirty-two. -/
theorem short_root_as_long_as_hash :
    ¬ ∀ c : Commitment, c.bytes.length ≠ 32 := by
  intro hclaim
  apply hclaim
    { kind := .checkpoint
      root := "abc"
      count := 1
      tsMs := 1 }
  decide +kernel

end Decern
