import Decern.LedgerCommitments
import Mathlib.Tactic

/-!
# Verifying an evidence bundle

The offline check of an exported bundle against a pinned keyring.  Each check
adds its own errors, a check that does not apply is left out of the verdict,
and a bundle is accepted when every check that applies passes.
-/

namespace Decern

open ByteText (Bytes)
open JsonText (Doc Spanned)
open Serde (SerdeError docSource)

variable (P : Platform)

/-- The span of a bundle: the number of its first record. -/
structure SpanIn where
  fromSeq : UInt64 := 0
  deriving DecidableEq, Repr

/-- A bundle as it is read; a vector's length fits a machine word. -/
structure BundleIn where
  format : String
  span : SpanIn
  checkpoint : Checkpoint
  treeHead : Option TreeHead
  records : List RecordIn
  fits : records.length < UInt64.size

/-- The result of each check of a bundle. -/
structure BundleVerdict where
  accepted : Bool
  format : String
  records : ℕ
  fromSeq : UInt64
  fullTail : Bool
  chainOk : Bool
  recordSigsOk : Bool
  checkpointSigOk : Bool
  treeHeadPresent : Bool
  treeHeadSigOk : Bool
  merkleRootOk : Option Bool
  anchorOk : Bool
  consistencyOk : Option Bool
  errors : List String
  deriving DecidableEq, Repr

/-! ## Reading -/

def readSpan (doc : Doc) : Except SerdeError SpanIn := do
  let source := docSource P.floats
  let shape := source.shape doc
  Serde.expectStruct 1 shape
  let fromSeq ← Serde.defaulted shape 0 "from" 0 (Serde.readU64 source)
  return { fromSeq }

/-- The records of a bundle, each read from its own text. -/
def readRecords (child : Spanned) : Except SerdeError (List RecordIn) :=
  match JsonText.readOutline child.raw with
  | none => .error .unreadable
  | some outline =>
      match Serde.outlineShape P.floats outline with
      | .array items =>
          items.mapM fun item => readRecord P (String.ofList item.raw)
      | _ => .error (.invalidType "a sequence")

def readBundle (text : String) : Except SerdeError BundleIn := do
  match JsonText.readOutline text.toList with
  | none => .error .unreadable
  | some outline =>
      let source := docSource P.floats
      let shape := Serde.outlineShape P.floats outline
      Serde.expectStruct 5 shape
      let format ← Serde.defaulted shape 0 "format" ""
        fun child => Serde.readString source child.doc
      let span ← Serde.defaulted shape 1 "span" {}
        fun child => readSpan P child.doc
      let checkpoint ← Serde.required shape 2 "checkpoint"
        fun child => readCheckpointDoc P child.doc
      let treeHead ← Serde.defaulted shape 3 "tree_head" none
        fun child => Serde.readOption source (readTreeHead P) child.doc
      let records ← Serde.defaulted shape 4 "records" [] (readRecords P)
      if fits : records.length < UInt64.size then
        return { format, span, checkpoint, treeHead, records, fits }
      else .error .unreadable

/-! ## The checks -/

/-- An error, where a check fails. -/
def errorUnless (ok : Bool) (message : String) : List String :=
  if ok then [] else [message]

def recordError (index : ℕ) (why : String) : String :=
  "record " ++ toString index ++ ": " ++ why

/-- What the walk over the chain finds. -/
structure ChainCheck where
  ok : Bool
  leaves : List Bytes
  errors : List String

/-- The hash and the link of each record; before the first of a partial tail
nothing is expected. -/
def checkChain (index : ℕ) (expected : Option String) :
    List RecordIn → ChainCheck
  | [] => { ok := true, leaves := [], errors := [] }
  | record :: rest =>
      let next := checkChain (index + 1) (some record.hash) rest
      let want := HexText.encode
        (chainHash P (ByteText.encode record.entry) record.prev)
      let rederives := want == record.hash
      let links := expected.all (record.prev == ·)
      let leaf := HexText.decode record.hash
      { ok := rederives && links && leaf.isSome && next.ok
        leaves := leaf.toList ++ next.leaves
        errors :=
          errorUnless rederives (recordError index
            "hash does not re-derive from its bytes") ++
          errorUnless links (recordError index
            "prev does not link to the previous record") ++
          errorUnless leaf.isSome (recordError index
            "hash is not valid hex") ++ next.errors }

/-- The signature of each record and the succession of its keys. -/
def checkRecordSigs (keys : List VerifyingKey) (fromSeq : UInt64)
    (index : ℕ) (signers : List SignerSpan) :
    List RecordIn → Bool × List String
  | [] => (true, [])
  | record :: rest =>
      match HexText.decode record.hash with
      | none => (false, (checkRecordSigs keys fromSeq (index + 1) signers
          rest).2)
      | some message =>
          let seq := min (fromSeq.toNat + index) (UInt64.size - 1)
          match checkSigner P signers keys seq message record.sigB64
              record.kid with
          | .error why =>
              (false, recordError index why ::
                (checkRecordSigs keys fromSeq (index + 1) signers rest).2)
          | .ok signers =>
              checkRecordSigs keys fromSeq (index + 1) signers rest

/-- Where the tail ends, and how its positions line up. -/
def anchorErrors (b : BundleIn) : List String :=
  (match b.records.getLast? with
    | some last =>
        errorUnless (last.hash == b.checkpoint.root)
          "last record hash != checkpoint root"
    | none =>
        errorUnless (b.span.fromSeq == b.checkpoint.count)
          "empty tail but from != checkpoint count") ++
  errorUnless
    (b.span.fromSeq + UInt64.ofNat b.records.length == b.checkpoint.count)
    "from + record count != checkpoint count" ++
  (match b.treeHead with
    | some th =>
        errorUnless (th.treeSize == b.checkpoint.count)
          "tree_head size != checkpoint count"
    | none => [])

def noTreeHead : String :=
  "bundle has no tree_head (Merkle commitment); this verifier requires the " ++
    "upgraded decern-evidence-bundle shape"

/-- The earlier head is signed by a pinned key, and the proof over the
bundle's own leaves leads from its root to the bundle's. -/
def checkConsistency (keys : List VerifyingKey) (leaves : List Bytes)
    (earlier current : TreeHead) : Bool :=
  keys.any (verifyTreeHeadSig P earlier) &&
    decide (earlier.treeSize.toNat ≤ leaves.length) &&
    (consistencyProof P leaves earlier.treeSize.toNat).any fun path =>
      match hexTo32 earlier.merkleRoot, hexTo32 current.merkleRoot with
      | some firstRoot, some secondRoot =>
          verifyConsistency P earlier.treeSize.toNat current.treeSize.toNat
            firstRoot secondRoot path
      | _, _ => false

def unparsedVerdict (error : SerdeError) : BundleVerdict where
  accepted := false
  format := ""
  records := 0
  fromSeq := 0
  fullTail := false
  chainOk := false
  recordSigsOk := false
  checkpointSigOk := false
  treeHeadPresent := false
  treeHeadSigOk := false
  merkleRootOk := none
  anchorOk := false
  consistencyOk := none
  errors := ["bundle does not parse: " ++ P.serdeMessage error]

/-- The verdict on a bundle that parses. -/
def judgeBundle (b : BundleIn) (keys : List VerifyingKey)
    (against : Option TreeHead) : BundleVerdict :=
  let fullTail := b.span.fromSeq == 0
  let chain := checkChain P 0 (if fullTail then some genesis else none)
    b.records
  let sigs := checkRecordSigs P keys b.span.fromSeq 0 [] b.records
  let checkpointSigOk := keys.any (verifyCheckpointSig P b.checkpoint)
  let treeHeadSigOk := match b.treeHead with
    | some th => keys.any (verifyTreeHeadSig P th)
    | none => false
  let treeHeadError := match b.treeHead with
    | some _ => "tree-head signature not verified by any pinned key"
    | none => noTreeHead
  let anchor := anchorErrors b
  let merkleRootOk := match b.treeHead, fullTail && chain.ok with
    | some th, true => some (merkleRootHex P chain.leaves == th.merkleRoot)
    | _, _ => none
  let consistencyOk := match against, b.treeHead, fullTail && chain.ok with
    | some earlier, some current, true =>
        some (checkConsistency P keys chain.leaves earlier current)
    | some _, _, false => some false
    | _, _, _ => none
  let consistencyError := if fullTail && chain.ok then
      "consistency proof against the earlier anchored tree head FAILED " ++
        "(possible equivocation/truncation, or the earlier head is unsigned)"
    else
      "consistency check needs a full tail (from==0) to recompute; skipped"
  { accepted := chain.ok && sigs.1 && checkpointSigOk && treeHeadSigOk &&
      anchor.isEmpty && merkleRootOk.getD true && consistencyOk.getD true
    format := b.format
    records := b.records.length
    fromSeq := b.span.fromSeq
    fullTail
    chainOk := chain.ok
    recordSigsOk := sigs.1
    checkpointSigOk
    treeHeadPresent := b.treeHead.isSome
    treeHeadSigOk
    merkleRootOk
    anchorOk := anchor.isEmpty
    consistencyOk
    errors := chain.errors ++ sigs.2 ++
      errorUnless checkpointSigOk
        "checkpoint signature not verified by any pinned key" ++
      errorUnless treeHeadSigOk treeHeadError ++ anchor ++
      errorUnless (merkleRootOk.getD true)
        "recomputed Merkle root != signed tree head" ++
      errorUnless (consistencyOk.getD true) consistencyError }

def verifyEvidenceBundle (bundleJson : String) (keys : List VerifyingKey)
    (against : Option TreeHead) : BundleVerdict :=
  match readBundle P bundleJson with
  | .error error => unparsedVerdict P error
  | .ok b => judgeBundle P b keys against

/-! ## What an accepted bundle passes -/

theorem errorUnless_eq_nil_iff {ok : Bool} {message : String} :
    errorUnless ok message = [] ↔ ok = true := by
  cases ok <;> simp [errorUnless]

/-- Every check of a bundle, passed. -/
structure BundlePasses (b : BundleIn) (keys : List VerifyingKey)
    (th : TreeHead) : Prop where
  treeHead : b.treeHead = some th
  chain : (checkChain P 0
    (if b.span.fromSeq == 0 then some genesis else none) b.records).ok = true
  sigs : (checkRecordSigs P keys b.span.fromSeq 0 [] b.records).1 = true
  checkpointSig : keys.any (verifyCheckpointSig P b.checkpoint) = true
  treeHeadSig : keys.any (verifyTreeHeadSig P th) = true
  last : ∀ record, b.records.getLast? = some record →
    record.hash = b.checkpoint.root
  empty : b.records = [] → b.span.fromSeq = b.checkpoint.count
  count : b.span.fromSeq + UInt64.ofNat b.records.length =
    b.checkpoint.count
  treeSize : th.treeSize = b.checkpoint.count
  merkleRoot : b.span.fromSeq = 0 →
    merkleRootHex P (checkChain P 0 (some genesis) b.records).leaves =
      th.merkleRoot

theorem anchorErrors_eq_nil_iff {b : BundleIn} {th : TreeHead}
    (hhead : b.treeHead = some th) :
    anchorErrors b = [] ↔
      (∀ record, b.records.getLast? = some record →
        record.hash = b.checkpoint.root) ∧
      (b.records = [] → b.span.fromSeq = b.checkpoint.count) ∧
      b.span.fromSeq + UInt64.ofNat b.records.length =
        b.checkpoint.count ∧
      th.treeSize = b.checkpoint.count := by
  unfold anchorErrors
  rw [hhead]
  simp only [List.append_eq_nil_iff, errorUnless_eq_nil_iff, beq_iff_eq]
  cases hlast : b.records.getLast? with
  | none =>
      have hnil := List.getLast?_eq_none_iff.mp hlast
      simp [hnil, errorUnless_eq_nil_iff]
  | some last =>
      have hne : b.records ≠ [] := by
        rintro hnil
        simp [hnil] at hlast
      simp [hne, errorUnless_eq_nil_iff, and_assoc]

theorem judgeBundle_accepted_iff (b : BundleIn) (keys : List VerifyingKey)
    (against : Option TreeHead) :
    (judgeBundle P b keys against).accepted = true ↔
      ∃ th, BundlePasses P b keys th ∧
        ∀ earlier, against = some earlier → b.span.fromSeq = 0 ∧
          checkConsistency P keys
            (checkChain P 0 (some genesis) b.records).leaves earlier th =
              true := by
  constructor
  · intro haccept
    simp only [judgeBundle, Bool.and_eq_true, List.isEmpty_iff] at haccept
    obtain ⟨⟨⟨⟨⟨⟨hchain, hsigs⟩, hcheckpoint⟩, hsig⟩, herrors⟩, hmerkle⟩,
      hconsistency⟩ := haccept
    cases hhead : b.treeHead with
    | none =>
        rw [hhead] at hsig
        cases hsig
    | some th =>
        rw [hhead] at hsig hmerkle hconsistency
        obtain ⟨hlast, hempty, hcount, hsize⟩ := 
          (anchorErrors_eq_nil_iff hhead).mp herrors
        have hroot : b.span.fromSeq = 0 →
            merkleRootHex P
              (checkChain P 0 (some genesis) b.records).leaves =
                th.merkleRoot := by
          intro hfull
          rw [hfull] at hchain hmerkle
          simp only [beq_self_eq_true, if_true] at hchain hmerkle
          simpa [hchain] using hmerkle
        refine ⟨th, ⟨hhead, hchain, hsigs, hcheckpoint, hsig, hlast, hempty,
          hcount, hsize, hroot⟩, ?_⟩
        intro earlier hagainst
        rw [hagainst] at hconsistency
        by_cases hfull : b.span.fromSeq = 0
        · rw [hfull] at hchain hconsistency
          simp only [beq_self_eq_true, if_true] at hchain hconsistency
          exact ⟨hfull, by simpa [hchain] using hconsistency⟩
        · have hnonzero : (b.span.fromSeq == 0) = false :=
            beq_false_of_ne hfull
          rw [hnonzero] at hconsistency
          cases hconsistency
  · rintro ⟨th, hpasses, hagainst⟩
    have hhead := hpasses.treeHead
    have herrors := (anchorErrors_eq_nil_iff hhead).mpr ⟨hpasses.last, hpasses.empty,
      hpasses.count, hpasses.treeSize⟩
    simp only [judgeBundle, Bool.and_eq_true, List.isEmpty_iff]
    rw [hhead]
    refine ⟨⟨⟨⟨⟨⟨hpasses.chain, hpasses.sigs⟩, hpasses.checkpointSig⟩,
      hpasses.treeHeadSig⟩, herrors⟩, ?_⟩, ?_⟩
    · by_cases hfull : b.span.fromSeq = 0
      · have hchain := hpasses.chain
        rw [hfull] at hchain ⊢
        simp only [beq_self_eq_true, if_true] at hchain ⊢
        simp [hchain, hpasses.merkleRoot hfull]
      · simp [hfull]
    · cases against with
      | none => simp
      | some earlier =>
          obtain ⟨hfull, hconsistent⟩ := hagainst earlier rfl
          have hchain := hpasses.chain
          rw [hfull] at hchain ⊢
          simp only [beq_self_eq_true, if_true] at hchain ⊢
          simp [hchain, hconsistent]

theorem verifyEvidenceBundle_accepted_iff (text : String)
    (keys : List VerifyingKey) (against : Option TreeHead) :
    (verifyEvidenceBundle P text keys against).accepted = true ↔
      ∃ b, readBundle P text = .ok b ∧
        (judgeBundle P b keys against).accepted = true := by
  unfold verifyEvidenceBundle
  cases readBundle P text with
  | error error => simp [unparsedVerdict]
  | ok b => simp

end Decern
