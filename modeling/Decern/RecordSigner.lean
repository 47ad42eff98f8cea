import Decern.LedgerVerify
import Decern.RecordValue
import Mathlib.Tactic

/-!
# Who signed a record

A record is signed by the key it names, or by a key its signature verifies
under when it names none.  Where a signature verifies under one key only, the
verifier's account of a history depends on the keys that signed it and not on
the rest of the ring.
-/

namespace Decern

open ByteText (Bytes)
open Serde (Value)

variable (P : Platform)

/-- A signature verifies under one key only. -/
def Platform.OneSigner : Prop :=
  ∀ key other message sig, P.verifyStrict key message sig = true →
    P.verifyStrict other message sig = true → key = other

/-- What a record's signature is over. -/
def RecordIn.digest (record : RecordIn) : Bytes :=
  chainHash P (ByteText.encode record.entry) record.prev

def RecordIn.signature (record : RecordIn) : Option Signature :=
  (P.decodeBase64 record.sigB64).bind toSignature

structure SignedBy (record : RecordIn) (key : VerifyingKey) : Prop where
  named : ∀ kid, record.kid = some kid → kid = keyFingerprint key
  verifies : ∃ sig, record.signature P = some sig ∧
    P.verifyStrict key (record.digest P) sig = true

theorem SignedBy.unique (hone : P.OneSigner) {record : RecordIn}
    {key other : VerifyingKey} (hkey : SignedBy P record key)
    (hother : SignedBy P record other) : key = other := by
  obtain ⟨sig, hsig, hverify⟩ := hkey.verifies
  obtain ⟨same, hsame, hverifySame⟩ := hother.verifies
  rw [hsig] at hsame
  cases hsame
  exact hone _ _ _ _ hverify hverifySame

/-- The signature a stored line carries. -/
def LineSignedBy (line : String) (key : VerifyingKey) : Prop :=
  ∃ record, readRecord P line = .ok record ∧ SignedBy P record key

/-- A ring with every key that signed one of the lines. -/
def HoldsSigners (ring : List VerifyingKey) (lines : List String) : Prop :=
  ∀ line ∈ lines, ∃ key ∈ ring, LineSignedBy P line key

/-! ## The verifier's account -/

theorem verifies_of_find? {keys : List VerifyingKey} {key : VerifyingKey}
    {hash : Bytes} {sig : Signature}
    (hkey : keys.find? (fun other => P.verifyStrict other hash sig) =
      some key) :
    P.verifyStrict key hash sig = true :=
  by simpa using List.find?_some hkey

theorem recordSigner_eq_ok {keys : List VerifyingKey} {hash : Bytes}
    {sig : Signature} {kid : Option String} {signer : String}
    (hsigner : recordSigner P keys hash sig kid = .ok signer) :
    ∃ key ∈ keys, signer = keyFingerprint key ∧
      P.verifyStrict key hash sig = true ∧
      ∀ name, kid = some name → name = keyFingerprint key := by
  unfold recordSigner at hsigner
  split at hsigner
  case h_1 name =>
    split at hsigner
    case h_1 key hkey =>
      have hname := List.find?_some hkey
      rw [beq_iff_eq] at hname
      split at hsigner
      case isTrue hverify =>
        cases hsigner
        refine ⟨key, List.mem_of_find?_eq_some hkey, hname.symm, hverify, ?_⟩
        rintro _ ⟨⟩
        exact hname.symm
      case isFalse => cases hsigner
    case h_2 => cases hsigner
  case h_2 =>
    split at hsigner
    case h_1 key hkey =>
      cases hsigner
      exact ⟨key, List.mem_of_find?_eq_some hkey, rfl,
        verifies_of_find? P hkey, by simp⟩
    case h_2 => cases hsigner

theorem recordSigner_of_mem (hone : P.OneSigner) {keys : List VerifyingKey}
    {key : VerifyingKey} {hash : Bytes} {sig : Signature}
    {kid : Option String} (hkey : key ∈ keys)
    (hverify : P.verifyStrict key hash sig = true)
    (hnamed : ∀ name, kid = some name → name = keyFingerprint key) :
    recordSigner P keys hash sig kid = .ok (keyFingerprint key) := by
  cases kid with
  | some name =>
      rw [hnamed name rfl]
      simp only [recordSigner, find?_keyFingerprint hkey, hverify, if_true]
  | none =>
      have hsome : (keys.find? fun other =>
          P.verifyStrict other hash sig).isSome :=
        List.find?_isSome.mpr ⟨key, hkey, hverify⟩
      obtain ⟨found, hfound⟩ := Option.isSome_iff_exists.mp hsome
      have heq : found = key :=
        hone _ _ _ _ (verifies_of_find? P hfound) hverify
      simp only [recordSigner, hfound, heq]

/-- What an accepted signature check says of the record's signer. -/
theorem checkSignature_eq_ok {keys : List VerifyingKey}
    {state : VerifyState} {record : RecordIn} {signers : List SignerSpan}
    (hkeys : keys ≠ [])
    (hok : checkSignature P keys state record = .ok signers) :
    ∃ key ∈ keys, SignedBy P record key ∧
      Succession.Admits state.signers (keyFingerprint key) ∧
      signers = Succession.extend state.signers (keyFingerprint key)
        state.count := by
  unfold checkSignature at hok
  rw [if_neg (by simpa using hkeys)] at hok
  unfold checkSigner at hok
  split at hok
  case h_1 => cases hok
  case h_2 bytes hbytes =>
    split at hok
    case h_1 => cases hok
    case h_2 sig hsig =>
      split at hok
      case h_1 => cases hok
      case h_2 signer hsigner =>
        obtain ⟨key, hkey, rfl, hverify, hnamed⟩ :=
          recordSigner_eq_ok P hsigner
        obtain ⟨hadmits, hsigners⟩ := (succeed_eq_ok_iff _ _ _ _).mp hok
        refine ⟨key, hkey, ⟨hnamed, sig, ?_, hverify⟩, hadmits, hsigners⟩
        rw [RecordIn.signature, hbytes, Option.bind_some, hsig]

theorem checkSignature_of_signedBy (hone : P.OneSigner)
    {keys : List VerifyingKey} {state : VerifyState} {record : RecordIn}
    {key : VerifyingKey} (hkey : key ∈ keys)
    (hsigned : SignedBy P record key)
    (hadmits : Succession.Admits state.signers (keyFingerprint key)) :
    checkSignature P keys state record =
      .ok (Succession.extend state.signers (keyFingerprint key)
        state.count) := by
  obtain ⟨sig, hsig, hverify⟩ := hsigned.verifies
  obtain ⟨bytes, hbytes, hsigBytes⟩ := Option.bind_eq_some_iff.mp hsig
  have hsigner := recordSigner_of_mem P hone hkey hverify hsigned.named
  unfold RecordIn.digest at hsigner
  unfold checkSignature
  rw [if_neg (by simpa using List.ne_nil_of_mem hkey)]
  simp only [checkSigner, hbytes, hsigBytes, hsigner]
  exact (succeed_eq_ok_iff _ _ _ _).mpr ⟨hadmits, rfl⟩

/-- A record accepted under one ring is accepted alike under any ring that
holds its signer. -/
theorem verifyRecord_ring (hone : P.OneSigner)
    {keys ring : List VerifyingKey} {window : Option ReadWindow}
    {state next : VerifyState} {line : String} (hkeys : keys ≠ [])
    (hok : verifyRecord P keys window state line = .ok next)
    (hring : ∃ key ∈ ring, LineSignedBy P line key) :
    verifyRecord P ring window state line = .ok next := by
  rw [verifyRecord_eq_ok_iff] at hok ⊢
  obtain ⟨record, signers, records, haccepted, hrest⟩ := hok
  obtain ⟨key, hkey, read, hread, hsigned⟩ := hring
  rw [haccepted.read] at hread
  cases hread
  obtain ⟨signer, -, hsigner, hadmits, hsigners⟩ :=
    checkSignature_eq_ok P hkeys haccepted.signature
  obtain rfl := hsigner.unique P hone hsigned
  refine ⟨record, signers, records, { haccepted with signature := ?_ }, hrest⟩
  rw [hsigners]
  exact checkSignature_of_signedBy P hone hkey hsigned hadmits

theorem verifyFrom_ring (hone : P.OneSigner)
    {keys ring : List VerifyingKey} {window : Option ReadWindow}
    {state final : VerifyState} {lines : List String} (hkeys : keys ≠ [])
    (hok : verifyFrom P keys window state (lines.map .ok) = .ok final)
    (hring : HoldsSigners P ring lines) :
    verifyFrom P ring window state (lines.map .ok) = .ok final := by
  induction lines generalizing state with
  | nil => exact hok
  | cons line rest ih =>
      rw [List.map_cons, verifyFrom_cons] at hok ⊢
      cases hline : verifyLine P keys window state (.ok line) with
      | error error =>
          rw [hline] at hok
          cases hok
      | ok next =>
          have hsame : verifyLine P ring window state (.ok line) =
              .ok next := by
            unfold verifyLine at hline ⊢
            simp only at hline ⊢
            split
            case isTrue hblank => simpa [hblank] using hline
            case isFalse hblank =>
              rw [if_neg hblank] at hline
              exact verifyRecord_ring P hone hkeys hline
                (hring line (by simp))
          rw [hline] at hok
          rw [hsame]
          exact ih hok fun other hother =>
            hring other (List.mem_cons_of_mem _ hother)

/-! ## The signer a reader of values finds -/

/-- The key a stored record is attributed to. -/
def signerOf (record : Value) (verifiers : List VerifyingKey) :
    Option String :=
  match textMember record "kid" with
  | some kid => some kid
  | none =>
      (textMember record "hash").bind fun hash =>
        (HexText.decode hash).bind fun hash =>
          (textMember record "sig_b64").bind fun sig =>
            ((P.decodeBase64 sig).bind toSignature).bind fun sig =>
              (verifiers.find? fun key =>
                P.verifyStrict key hash sig).map keyFingerprint

/-- Whom a record is attributed to is who signed it. -/
theorem signerOf_eq (hone : P.OneSigner) {keys verifiers : List VerifyingKey}
    {state : VerifyState} {line : String} {record : RecordIn}
    {signers : List SignerSpan} {value : Value} {key : VerifyingKey}
    {signer : String}
    (haccepted : Accepted P keys state line record signers)
    (hvalue : parseValue P line = some value)
    (hsigned : SignedBy P record key)
    (hsigner : signerOf P value verifiers = some signer) :
    signer = keyFingerprint key := by
  rcases textMember_of_readRecord P haccepted.read hvalue with
    ⟨items, rfl⟩ | ⟨hhash, hsig, hkid⟩
  · cases hsigner
  · unfold signerOf at hsigner
    rw [hkid, hhash, hsig] at hsigner
    cases hnamed : record.kid with
    | some kid =>
        rw [hnamed] at hsigner
        cases hsigner
        exact hsigned.named _ hnamed
    | none =>
        obtain ⟨sig, hsigText, hverify⟩ := hsigned.verifies
        obtain ⟨bytes, hbytes, hsigBytes⟩ :=
          Option.bind_eq_some_iff.mp hsigText
        rw [hnamed] at hsigner
        simp only [Option.bind_some, ← haccepted.hash, HexText.decode_encode,
          hbytes, hsigBytes, Option.map_eq_some_iff] at hsigner
        obtain ⟨found, hfound, rfl⟩ := hsigner
        rw [hone _ _ _ _ (verifies_of_find? P hfound) hverify]

/-- A written record is attributed to the key it names. -/
theorem signerOf_line (record : RecordOut) {kid : String} {value : Value}
    (hkid : record.kid = some kid)
    (hvalue : parseValue P (record.line P) = some value)
    (verifiers : List VerifyingKey) :
    signerOf P value verifiers = some kid := by
  obtain ⟨members, rfl⟩ := parseValue_line_object P hvalue
  rcases textMember_of_readRecord P (readRecord_line P record) hvalue with
    ⟨items, harray⟩ | ⟨-, -, hnamed⟩
  · cases harray
  · unfold signerOf
    rw [hnamed, RecordOut.stored, hkid]

end Decern
