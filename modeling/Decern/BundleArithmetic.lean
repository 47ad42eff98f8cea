import Decern.BundleText
import Decern.JsonFuel
import Decern.MerkleWords
import Mathlib.Tactic

/-!
# The arithmetic of the bundle verifier

A bundle's numbers are words its author chose.  The verifier is written here
over the arithmetic of a build: one that checks stops at a sum that does not
fit, one that wraps goes on with the remainder, and integers have no such sum.
-/

namespace Decern

open ByteText (Bytes)
open Serde (SerdeError)
open Words (Arithmetic)

variable (P : Platform) (A : Arithmetic)

/-! ## The verifier over words -/

/-- What the record at `index` should link to. -/
def expectedPrev (fullTail : Bool) (records : List RecordIn) (index : ℕ)
    (record : RecordIn) : Option String :=
  if index = 0 then some (if fullTail then genesis else record.prev)
  else do
    let before ← records[← A.sub index 1]?
    some before.hash

/-- The loop over the chain, from some index on. -/
def checkChainWord (fullTail : Bool) (records : List RecordIn) (index : ℕ) :
    List RecordIn → Option ChainCheck
  | [] => some { ok := true, leaves := [], errors := [] }
  | record :: rest => do
      let expected ← expectedPrev A fullTail records index record
      let next ← checkChainWord fullTail records (index + 1) rest
      let want := HexText.encode
        (chainHash P (ByteText.encode record.entry) record.prev)
      let rederives := want == record.hash
      let links := record.prev == expected
      let leaf := HexText.decode record.hash
      some
        { ok := rederives && links && leaf.isSome && next.ok
          leaves := leaf.toList ++ next.leaves
          errors :=
            errorUnless rederives (recordError index
              "hash does not re-derive from its bytes") ++
            errorUnless links (recordError index
              "prev does not link to the previous record") ++
            errorUnless leaf.isSome (recordError index
              "hash is not valid hex") ++ next.errors }

def checkRecordSigsWord (keys : List VerifyingKey) (fromSeq : UInt64)
    (index : ℕ) (signers : List SignerSpan) :
    List RecordIn → Bool × List String
  | [] => (true, [])
  | record :: rest =>
      match HexText.decode record.hash with
      | none =>
          (false, (checkRecordSigsWord keys fromSeq (index + 1) signers
            rest).2)
      | some message =>
          let seq := A.saturatingAdd fromSeq.toNat index
          match checkSigner P signers keys seq message record.sigB64
              record.kid with
          | .error why =>
              (false, recordError index why ::
                (checkRecordSigsWord keys fromSeq (index + 1) signers rest).2)
          | .ok signers =>
              checkRecordSigsWord keys fromSeq (index + 1) signers rest

def anchorErrorsWord (b : BundleIn) : Option (List String) := do
  let total ← A.add b.span.fromSeq.toNat b.records.length
  some
    ((match b.records.getLast? with
      | some last =>
          errorUnless (last.hash == b.checkpoint.root)
            "last record hash != checkpoint root"
      | none =>
          errorUnless (b.span.fromSeq == b.checkpoint.count)
            "empty tail but from != checkpoint count") ++
    errorUnless (total == b.checkpoint.count.toNat)
      "from + record count != checkpoint count" ++
    (match b.treeHead with
      | some th =>
          errorUnless (th.treeSize == b.checkpoint.count)
            "tree_head size != checkpoint count"
      | none => []))

def merkleRootHexWord (leaves : List Bytes) : Option String :=
  (Merkle.treeHashWord A (merkleHashing P) (leaves.length + 1) leaves).map
    fun root => HexText.encode root.toList

def checkConsistencyWord (keys : List VerifyingKey) (leaves : List Bytes)
    (earlier current : TreeHead) : Option Bool :=
  if keys.any (verifyTreeHeadSig P earlier) &&
      decide (earlier.treeSize.toNat ≤ leaves.length) then do
    match ← Merkle.consistencyProofWord A (merkleHashing P) leaves
        earlier.treeSize.toNat with
    | none => some false
    | some path =>
        match hexTo32 earlier.merkleRoot, hexTo32 current.merkleRoot with
        | some firstRoot, some secondRoot =>
            Merkle.verifyConsistencyWord A (merkleHashing P)
              earlier.treeSize.toNat current.treeSize.toNat firstRoot
              secondRoot path
        | _, _ => some false
  else some false

/-- The verdict on a bundle, from what its checks found. -/
def verdictOf (b : BundleIn) (keys : List VerifyingKey) (chain : ChainCheck)
    (sigs : Bool × List String) (anchor : List String)
    (merkleRootOk consistencyOk : Option Bool) : BundleVerdict :=
  let fullTail := b.span.fromSeq == 0
  let checkpointSigOk := keys.any (verifyCheckpointSig P b.checkpoint)
  let treeHeadSigOk := match b.treeHead with
    | some th => keys.any (verifyTreeHeadSig P th)
    | none => false
  let treeHeadError := match b.treeHead with
    | some _ => "tree-head signature not verified by any pinned key"
    | none => noTreeHead
  let consistencyError := if fullTail && chain.ok then
      "consistency proof against the earlier anchored tree head FAILED " ++
        "(possible equivocation/truncation, or the earlier head is unsigned)"
    else
      "consistency check needs a full tail (from==0) to recompute; skipped"
  { accepted := chain.ok && sigs.1 && checkpointSigOk && treeHeadSigOk &&
      anchor.isEmpty && merkleRootOk.getD true && consistencyOk.getD true
    format := b.format
    records := b.records.length
    fromSeq := b.span.fromSeq
    fullTail
    chainOk := chain.ok
    recordSigsOk := sigs.1
    checkpointSigOk
    treeHeadPresent := b.treeHead.isSome
    treeHeadSigOk
    merkleRootOk
    anchorOk := anchor.isEmpty
    consistencyOk
    errors := chain.errors ++ sigs.2 ++
      errorUnless checkpointSigOk
        "checkpoint signature not verified by any pinned key" ++
      errorUnless treeHeadSigOk treeHeadError ++ anchor ++
      errorUnless (merkleRootOk.getD true)
        "recomputed Merkle root != signed tree head" ++
      errorUnless (consistencyOk.getD true) consistencyError }

/-- The checks that need the whole tail. -/
def checkMerkleRootWord (b : BundleIn) (chain : ChainCheck) :
    Option (Option Bool) :=
  match b.treeHead, b.span.fromSeq == 0 && chain.ok with
  | some th, true =>
      (merkleRootHexWord P A chain.leaves).map fun root =>
        some (root == th.merkleRoot)
  | _, _ => some none

def checkAgainstWord (b : BundleIn) (keys : List VerifyingKey)
    (against : Option TreeHead) (chain : ChainCheck) :
    Option (Option Bool) :=
  match against, b.treeHead, b.span.fromSeq == 0 && chain.ok with
  | some earlier, some current, true =>
      (checkConsistencyWord P A keys chain.leaves earlier current).map some
  | some _, _, false => some (some false)
  | _, _, _ => some none

def judgeBundleWord (b : BundleIn) (keys : List VerifyingKey)
    (against : Option TreeHead) : Option BundleVerdict := do
  let chain ← checkChainWord P A (b.span.fromSeq == 0) b.records 0 b.records
  let sigs := checkRecordSigsWord P A keys b.span.fromSeq 0 [] b.records
  let anchor ← anchorErrorsWord A b
  let merkleRootOk ← checkMerkleRootWord P A b chain
  let consistencyOk ← checkAgainstWord P A b keys against chain
  some (verdictOf P b keys chain sigs anchor merkleRootOk consistencyOk)

/-- Nothing where the build stops at a computation. -/
def verifyEvidenceBundleWord (bundleJson : String)
    (keys : List VerifyingKey) (against : Option TreeHead) :
    Option BundleVerdict :=
  match readBundle P bundleJson with
  | .error error => some (unparsedVerdict P error)
  | .ok b => judgeBundleWord P A b keys against

/-! ## Each check -/

section Checks

variable {P A} {b : BundleIn} {keys : List VerifyingKey}
  {chain : ChainCheck}

theorem expectedPrev_succ (hA : A.Agrees) (fullTail : Bool)
    {done rest : List RecordIn} {last record : RecordIn}
    (hfits : done.length + 1 < Words.size) :
    expectedPrev A fullTail (done ++ last :: rest) (done.length + 1) record =
      some last.hash := by
  have hsub : A.sub (done.length + 1) 1 = some done.length :=
    hA.sub (by omega) hfits
  rw [expectedPrev, if_neg (by omega), hsub]
  simp

theorem checkChainWord_succ (hA : A.Agrees) (fullTail : Bool)
    {done rest : List RecordIn} {last : RecordIn}
    (hfits : (done ++ last :: rest).length < Words.size) :
    checkChainWord P A fullTail (done ++ last :: rest) (done.length + 1)
        rest =
      some (checkChain P (done.length + 1) (some last.hash) rest) := by
  induction rest generalizing done last with
  | nil => rfl
  | cons record rest ih =>
      simp only [List.length_append, List.length_cons] at hfits
      have hprev := @expectedPrev_succ A hA fullTail done (record :: rest)
        last record (by omega)
      have hnext := @ih (done ++ [last]) record (by simp; omega)
      simp only [List.append_assoc, List.singleton_append,
        List.length_append, List.length_singleton] at hnext
      rw [checkChainWord, hprev, checkChain]
      simp only [Option.bind_eq_bind, Option.bind_some, hnext,
        Option.all_some]

theorem checkChainWord_eq (hA : A.Agrees) (fullTail : Bool)
    {records : List RecordIn} (hfits : records.length < Words.size) :
    checkChainWord P A fullTail records 0 records =
      some (checkChain P 0 (if fullTail then some genesis else none)
        records) := by
  cases records with
  | nil => rfl
  | cons first rest =>
      have hnext := @checkChainWord_succ P A hA fullTail [] rest first hfits
      simp only [List.nil_append, List.length_nil, Nat.zero_add] at hnext
      rw [checkChainWord, checkChain, expectedPrev, if_pos rfl]
      simp only [Option.bind_eq_bind, Option.bind_some, hnext,
        Nat.zero_add]
      cases fullTail <;> simp

theorem checkRecordSigsWord_eq (fromSeq : UInt64) (index : ℕ)
    (signers : List SignerSpan) (records : List RecordIn)
    (hsum : ∀ i < index + records.length,
      A.saturatingAdd fromSeq.toNat i =
        min (fromSeq.toNat + i) (UInt64.size - 1)) :
    checkRecordSigsWord P A keys fromSeq index signers records =
      checkRecordSigs P keys fromSeq index signers records := by
  induction records generalizing index signers with
  | nil => rfl
  | cons record rest ih =>
      rw [List.length_cons] at hsum
      have hseq := hsum index (by omega)
      have hrest : ∀ signers, checkRecordSigsWord P A keys fromSeq
          (index + 1) signers rest =
            checkRecordSigs P keys fromSeq (index + 1) signers rest :=
        fun signers => ih (index + 1) signers
          fun i hi => hsum i (by omega)
      rw [checkRecordSigsWord, checkRecordSigs]
      cases HexText.decode record.hash with
      | none => simp only [hrest]
      | some message =>
          simp only [hseq]
          cases checkSigner P signers keys
            (min (fromSeq.toNat + index) (UInt64.size - 1)) message
            record.sigB64 record.kid <;> simp only [hrest]

theorem anchorErrorsWord_eq {total : ℕ}
    (hadd : A.add b.span.fromSeq.toNat b.records.length = some total)
    (htotal : total =
      (b.span.fromSeq + UInt64.ofNat b.records.length).toNat) :
    anchorErrorsWord A b = some (anchorErrors b) := by
  have hsame : (total == b.checkpoint.count.toNat) =
      (b.span.fromSeq + UInt64.ofNat b.records.length ==
        b.checkpoint.count) := by
    rw [htotal, Bool.eq_iff_iff, beq_iff_eq, beq_iff_eq, UInt64.toNat_inj]
  unfold anchorErrorsWord anchorErrors
  rw [hadd]
  cases b.records.getLast? <;> cases b.treeHead <;>
    simp only [Option.bind_eq_bind, Option.bind_some, hsame]

theorem length_leaves_le (index : ℕ) (expected : Option String)
    (records : List RecordIn) :
    (checkChain P index expected records).leaves.length ≤
      records.length := by
  induction records generalizing index expected with
  | nil => simp [checkChain]
  | cons record rest ih =>
      have hrest := ih (index + 1) (some record.hash)
      have hleaf : (HexText.decode record.hash).toList.length ≤ 1 := by
        cases HexText.decode record.hash <;> simp
      simp only [checkChain, List.length_append, List.length_cons]
      omega

theorem checkMerkleRootWord_eq (hA : A.Agrees)
    (hleaves : chain.leaves.length ≤ Merkle.half) :
    checkMerkleRootWord P A b chain =
      some (match b.treeHead, b.span.fromSeq == 0 && chain.ok with
        | some th, true =>
            some (merkleRootHex P chain.leaves == th.merkleRoot)
        | _, _ => none) := by
  have htree := Merkle.treeHashWord_eq (H := merkleHashing P) hA hleaves
    (Nat.lt_succ_self _)
  unfold checkMerkleRootWord merkleRootHexWord
  rw [htree]
  cases b.treeHead with
  | none => rfl
  | some th => cases b.span.fromSeq == 0 && chain.ok <;> rfl

theorem length_subproof_le {d : List Bytes} {m : ℕ} (hm : 0 < m)
    (hle : m ≤ d.length) (whole : Bool) :
    (Merkle.subproof (merkleHashing P) d m whole).length ≤ d.length := by
  induction d using Merkle.splitInduction generalizing m whole with
  | short d hd =>
      have hwhole : m = d.length := by omega
      rw [hwhole, Merkle.subproof_whole]
      cases whole
      · simp
        omega
      · simp
  | join d hd left right =>
      have hlt := Merkle.split_lt hd
      have hpos := Merkle.split_pos hd
      by_cases hwhole : m = d.length
      · rw [hwhole, Merkle.subproof_whole]
        cases whole
        · simp
          omega
        · simp
      · by_cases hside : m ≤ Merkle.split d.length
        · have hlength := Merkle.length_take_split hd
          have hrec := left hm (by omega) whole
          rw [Merkle.subproof_left hd hside, List.length_append,
            List.length_singleton]
          omega
        · have hlength := @Merkle.length_drop_split Bytes d
          have hrec := @right (m - Merkle.split d.length) (by omega)
            (by omega) false
          rw [Merkle.subproof_right (by omega) (by omega) hd,
            List.length_append, List.length_singleton]
          omega

theorem checkConsistencyWord_eq (hA : A.Agrees) {leaves : List Bytes}
    (hleaves : leaves.length ≤ Merkle.half) (earlier current : TreeHead) :
    checkConsistencyWord P A keys leaves earlier current =
      some (checkConsistency P keys leaves earlier current) := by
  have hproof := Merkle.consistencyProofWord_eq (H := merkleHashing P) hA
    hleaves earlier.treeSize.toNat
  unfold checkConsistencyWord checkConsistency
  rw [hproof]
  cases hguard : keys.any (verifyTreeHeadSig P earlier) &&
      decide (earlier.treeSize.toNat ≤ leaves.length) with
  | false => rfl
  | true =>
      simp only [if_true, Option.bind_eq_bind, Option.bind_some,
        Bool.true_and]
      cases hpath : consistencyProof P leaves earlier.treeSize.toNat with
      | none =>
          have hnone : Merkle.consistencyProof (merkleHashing P) leaves
            earlier.treeSize.toNat = none := hpath
          rw [hnone]
          rfl
      | some path =>
          have hsome : Merkle.consistencyProof (merkleHashing P) leaves
            earlier.treeSize.toNat = some path := hpath
          have hbound : path.length ≤ Merkle.half := by
            unfold Merkle.consistencyProof at hsome
            split_ifs at hsome with hrange
            rw [← Option.some.inj hsome]
            exact (length_subproof_le (by omega) (by omega) true).trans
              hleaves
          rw [hsome]
          simp only [Option.any_some]
          cases hexTo32 earlier.merkleRoot with
          | none => rfl
          | some firstRoot =>
              cases hexTo32 current.merkleRoot with
              | none => rfl
              | some secondRoot =>
                  exact Merkle.verifyConsistencyWord_eq hA
                    current.treeSize.toNat_lt_size firstRoot secondRoot
                    hbound

theorem checkAgainstWord_eq (hA : A.Agrees)
    (hleaves : chain.leaves.length ≤ Merkle.half)
    (against : Option TreeHead) :
    checkAgainstWord P A b keys against chain =
      some (match against, b.treeHead, b.span.fromSeq == 0 && chain.ok with
        | some earlier, some current, true =>
            some (checkConsistency P keys chain.leaves earlier current)
        | some _, _, false => some false
        | _, _, _ => none) := by
  unfold checkAgainstWord
  cases against with
  | none => rfl
  | some earlier =>
      cases b.treeHead with
      | none => cases b.span.fromSeq == 0 && chain.ok <;> rfl
      | some current =>
          cases b.span.fromSeq == 0 && chain.ok with
          | false => rfl
          | true =>
              simp only [checkConsistencyWord_eq hA hleaves earlier current]
              rfl

/-! ## The verdict -/

theorem judgeBundleWord_eq (hA : A.Agrees)
    (hlength : b.records.length ≤ Merkle.half) {total : ℕ}
    (hadd : A.add b.span.fromSeq.toNat b.records.length = some total)
    (htotal : total =
      (b.span.fromSeq + UInt64.ofNat b.records.length).toNat)
    (hsum : ∀ i < b.records.length, A.saturatingAdd b.span.fromSeq.toNat i =
      min (b.span.fromSeq.toNat + i) (UInt64.size - 1))
    (against : Option TreeHead) :
    judgeBundleWord P A b keys against =
      some (judgeBundle P b keys against) := by
  have hleaves := (length_leaves_le (P := P) 0
    (if b.span.fromSeq == 0 then some genesis else none) b.records).trans
      hlength
  unfold judgeBundleWord
  rw [checkChainWord_eq hA _ b.fits, anchorErrorsWord_eq hadd htotal,
    checkRecordSigsWord_eq _ _ _ _ (by simpa using hsum)]
  simp only [Option.bind_eq_bind, Option.bind_some,
    checkMerkleRootWord_eq hA hleaves, checkAgainstWord_eq hA hleaves]
  rfl

/-- Only the sum of the anchor check can stop a build. -/
theorem judgeBundleWord_isSome (hA : A.Agrees)
    (hlength : b.records.length ≤ Merkle.half) {total : ℕ}
    (hadd : A.add b.span.fromSeq.toNat b.records.length = some total)
    (against : Option TreeHead) :
    ∃ verdict, judgeBundleWord P A b keys against = some verdict := by
  have hleaves := (length_leaves_le (P := P) 0
    (if b.span.fromSeq == 0 then some genesis else none) b.records).trans
      hlength
  unfold judgeBundleWord anchorErrorsWord
  rw [checkChainWord_eq hA _ b.fits, hadd]
  simp only [Option.bind_eq_bind, Option.bind_some,
    checkMerkleRootWord_eq hA hleaves, checkAgainstWord_eq hA hleaves,
    Option.some.injEq, exists_eq']

theorem judgeBundleWord_eq_none (hA : A.Agrees)
    (hadd : A.add b.span.fromSeq.toNat b.records.length = none)
    (against : Option TreeHead) :
    judgeBundleWord P A b keys against = none := by
  unfold judgeBundleWord anchorErrorsWord
  rw [checkChainWord_eq hA _ b.fits, hadd]
  rfl

theorem toNat_sum (hsum : b.span.fromSeq.toNat + b.records.length <
      Words.size) :
    b.span.fromSeq.toNat + b.records.length =
      (b.span.fromSeq + UInt64.ofNat b.records.length).toNat := by
  have hsize : 2 ^ 64 = Words.size := rfl
  rw [UInt64.toNat_add, UInt64.toNat_ofNat_of_lt' b.fits, hsize,
    Nat.mod_eq_of_lt hsum]

theorem judgeBundleWord_of_fits (hA : A.Agrees)
    (hlength : b.records.length ≤ Merkle.half)
    (hsum : b.span.fromSeq.toNat + b.records.length < Words.size)
    (against : Option TreeHead) :
    judgeBundleWord P A b keys against =
      some (judgeBundle P b keys against) := by
  have hsize : UInt64.size = Words.size := rfl
  apply judgeBundleWord_eq hA hlength (hA.add hsum) (toNat_sum hsum)
  intro i hi
  rw [hA.saturatingAdd (by omega), min_eq_left (by omega)]

end Checks

/-! ## How many records a text holds -/

section Reading

variable {P}

theorem mapM_length {α β ε : Type} {f : α → Except ε β} {items : List α}
    {results : List β} (hitems : items.mapM f = .ok results) :
    results.length = items.length := by
  induction items generalizing results with
  | nil =>
      cases hitems
      rfl
  | cons item rest ih =>
      rw [List.mapM_cons] at hitems
      obtain ⟨first, _, hrest⟩ := Serde.bind_eq_ok.mp hitems
      obtain ⟨others, hothers, hcons⟩ := Serde.bind_eq_ok.mp hrest
      cases hcons
      rw [List.length_cons, List.length_cons, ih hothers]

theorem length_readRecords_le {child : JsonText.Spanned}
    {records : List RecordIn} (hread : readRecords P child = .ok records) :
    records.length ≤ child.raw.length := by
  unfold readRecords at hread
  split at hread
  case h_1 => cases hread
  case h_2 outline houtline =>
    have hwithin := JsonText.within_of_readOutline houtline
    cases outline with
    | leaf doc =>
        simp only [Serde.outlineShape] at hread
        split at hread
        case h_1 items harray => split at harray <;> cases harray
        case h_2 => cases hread
    | array items =>
        rw [mapM_length hread]
        exact hwithin.1
    | object members =>
        simp only [Serde.outlineShape] at hread
        split at hread
        case h_1 items harray => split at harray <;> cases harray
        case h_2 => cases hread

theorem mem_of_member {δ : Type} {members : List (String × δ)}
    {name : String} {child : δ}
    (hmember : Serde.member members name = .ok (some child)) :
    ∃ key, (key, child) ∈ members := by
  unfold Serde.member at hmember
  split at hmember
  case h_1 => cases hmember
  case h_2 key value hfilter =>
    cases hmember
    have hmem : (key, child) ∈
        members.filter fun member => member.1 == name := by
      rw [hfilter]
      exact List.mem_singleton_self _
    exact ⟨key, (List.mem_filter.mp hmem).1⟩
  case h_3 => cases hmember

theorem mem_of_namedMembers {δ : Type}
    {members : List (List JsonText.StringUnit × δ)}
    {named : List (String × δ)}
    (hnamed : Serde.namedMembers members = some named) {key : String}
    {child : δ} (hchild : (key, child) ∈ named) :
    ∃ units, (units, child) ∈ members := by
  unfold Serde.namedMembers at hnamed
  induction members generalizing named with
  | nil =>
      cases hnamed
      cases hchild
  | cons member rest ih =>
      rw [List.mapM_cons] at hnamed
      obtain ⟨first, hfirst, hrest⟩ := Option.bind_eq_some_iff.mp hnamed
      obtain ⟨others, hothers, hcons⟩ := Option.bind_eq_some_iff.mp hrest
      cases hcons
      rcases List.mem_cons.mp hchild with heq | hmem
      · obtain ⟨name, _, hname⟩ := Option.map_eq_some_iff.mp hfirst
        rw [← heq] at hname
        cases hname
        exact ⟨member.1, List.mem_cons_self⟩
      · obtain ⟨units, hunits⟩ := ih hothers hmem
        exact ⟨units, List.mem_cons_of_mem _ hunits⟩

/-- A field's text is part of the whole text. -/
theorem length_field_le {text : List Char} {outline : JsonText.Outline}
    (houtline : JsonText.readOutline text = some outline) {index : ℕ}
    {name : String} {child : JsonText.Spanned}
    (hfield : Serde.field (Serde.outlineShape P.floats outline) index name =
      .ok (some child)) : child.raw.length ≤ text.length := by
  have hwithin := JsonText.within_of_readOutline houtline
  cases outline with
  | leaf doc =>
      simp only [Serde.outlineShape] at hfield
      split at hfield <;> cases hfield
  | array items =>
      simp only [Serde.outlineShape, Serde.field, Except.ok.injEq] at hfield
      exact hwithin.2 child (List.mem_of_getElem? hfield)
  | object members =>
      simp only [Serde.outlineShape] at hfield
      cases hnamed : Serde.namedMembers members with
      | none =>
          rw [hnamed] at hfield
          cases hfield
      | some named =>
          rw [hnamed] at hfield
          obtain ⟨key, hkey⟩ := mem_of_member hfield
          obtain ⟨units, hunits⟩ := mem_of_namedMembers hnamed hkey
          exact hwithin (units, child) hunits

theorem length_records_le {text : String} {b : BundleIn}
    (hread : readBundle P text = .ok b) :
    b.records.length ≤ text.toList.length := by
  unfold readBundle at hread
  split at hread
  case h_1 => cases hread
  case h_2 outline houtline =>
    simp only at hread
    obtain ⟨_, _, hread⟩ := Serde.bind_eq_ok.mp hread
    obtain ⟨format, _, hread⟩ := Serde.bind_eq_ok.mp hread
    obtain ⟨span, _, hread⟩ := Serde.bind_eq_ok.mp hread
    obtain ⟨checkpoint, _, hread⟩ := Serde.bind_eq_ok.mp hread
    obtain ⟨treeHead, _, hread⟩ := Serde.bind_eq_ok.mp hread
    obtain ⟨records, hrecords, hread⟩ := Serde.bind_eq_ok.mp hread
    split at hread
    case isFalse => cases hread
    case isTrue hfits =>
      cases hread
      obtain ⟨found, hfield, hfound⟩ := Serde.bind_eq_ok.mp hrecords
      cases found with
      | none =>
          cases hfound
          exact Nat.zero_le _
      | some child =>
          exact (length_readRecords_le hfound).trans
            (length_field_le houtline hfield)

end Reading

/-! ## The law -/

/-- The sum of the anchor check fits a word, for a text that is a bundle. -/
def SumFits (text : String) : Prop :=
  ∀ b, readBundle P text = .ok b →
    b.span.fromSeq.toNat + b.records.length < Words.size

theorem length_toList_le (text : String) :
    text.toList.length ≤ (ByteText.encode text).length := by
  rw [ByteText.encode, List.length_flatMap]
  generalize text.toList = chars
  induction chars with
  | nil => simp
  | cons c rest ih =>
      have hpos : 0 < (String.utf8EncodeChar c).length := by
        rw [String.length_utf8EncodeChar]
        exact Char.utf8Size_pos c
      simp only [List.length_cons, List.map_cons, List.sum_cons]
      omega

/-- On a text a string can hold, a build that checks gives the verdict of
exact integers exactly when the one sum nothing bounds fits a word; elsewhere
it stops.  Where the sum fits, the wrapping build gives that verdict too. -/
theorem bundle_arithmetic_total_iff (text : String)
    (keys : List VerifyingKey) (against : Option TreeHead)
    (htext : (ByteText.encode text).length < 2 ^ 63) :
    ∃ verdict,
      verifyEvidenceBundleWord P Words.exact text keys against =
        some verdict ∧
      (verifyEvidenceBundleWord P Words.checked text keys against =
        some verdict ↔ SumFits P text) ∧
      (¬ SumFits P text →
        verifyEvidenceBundleWord P Words.checked text keys against = none) ∧
      (SumFits P text →
        verifyEvidenceBundleWord P Words.wrapping text keys against =
          some verdict) := by
  unfold verifyEvidenceBundleWord SumFits
  cases hread : readBundle P text with
  | error error => simp
  | ok b =>
      have hlength : b.records.length ≤ Merkle.half :=
        (length_records_le hread).trans
          ((length_toList_le text).trans htext.le)
      obtain ⟨verdict, hexact⟩ := @judgeBundleWord_isSome P Words.exact b
        keys Words.agrees_exact hlength _ rfl against
      refine ⟨verdict, hexact, ?_⟩
      by_cases hsum : b.span.fromSeq.toNat + b.records.length < Words.size
      · have hsame : ∀ {A : Arithmetic}, A.Agrees →
            judgeBundleWord P A b keys against = some verdict := by
          intro A hA
          rw [judgeBundleWord_of_fits hA hlength hsum,
            ← judgeBundleWord_of_fits Words.agrees_exact hlength hsum, hexact]
        have hfits : ∀ found, Except.ok (ε := SerdeError) b = .ok found →
            found.span.fromSeq.toNat + found.records.length < Words.size := by
          rintro _ ⟨⟩
          exact hsum
        exact ⟨iff_of_true (hsame Words.agrees_checked) hfits,
          fun hnot => absurd hfits hnot,
          fun _ => hsame Words.agrees_wrapping⟩
      · have hnone := @judgeBundleWord_eq_none P Words.checked b keys
          Words.agrees_checked
          (Words.add_checked_eq_none (not_lt.mp hsum)) against
        have hover : ¬ ∀ found, Except.ok (ε := SerdeError) b = .ok found →
            found.span.fromSeq.toNat + found.records.length < Words.size :=
          fun hall => hsum (hall b rfl)
        refine ⟨iff_of_false ?_ hover, fun _ => hnone,
          fun hall => absurd hall hover⟩
        simp only [hnone, reduceCtorEq, not_false_eq_true]

/-! ## Bundles at both ends of the range -/

def lastRecord : RecordOut :=
  sealRecord samplePlatform (sampleKey 1) (sampleEntry .null) genesis

/-- A bundle of one record, said to be the one with a number. -/
def soloBundle (fromSeq : UInt64) (cp : Checkpoint) (th : TreeHead) :
    String :=
  String.ofList (JsonText.print (Serde.structDoc
    (fieldsFrom samplePlatform fromSeq cp th [lastRecord])))

theorem readBundle_soloBundle (fromSeq : UInt64) (cp : Checkpoint)
    (th : TreeHead) :
    ∃ b, readBundle samplePlatform (soloBundle fromSeq cp th) = .ok b ∧
      b.span.fromSeq = fromSeq ∧ b.records.length = 1 := by
  have hread := readBundle_fieldsFrom samplePlatform fromSeq cp th
    [lastRecord] one_lt_size String.toList_ofList
  exact ⟨_, hread, rfl, rfl⟩

/-- The bundle of a first record. -/
def startOfRange : String :=
  soloBundle 0
    (signCheckpoint samplePlatform (sampleKey 1) lastRecord.hash 1 0)
    (signTreeHead samplePlatform (sampleKey 1) lastRecord.hash 1 0)

theorem length_startOfRange :
    (ByteText.encode startOfRange).length < 2 ^ 63 := by
  rw [startOfRange, soloBundle, ByteText.encode, String.toList_ofList]
  decide +kernel

theorem sumFits_startOfRange : SumFits samplePlatform startOfRange := by
  intro b hb
  obtain ⟨found, hfound, hfrom, hrecords⟩ := readBundle_soloBundle 0
    (signCheckpoint samplePlatform (sampleKey 1) lastRecord.hash 1 0)
    (signTreeHead samplePlatform (sampleKey 1) lastRecord.hash 1 0)
  have hsame : b = found := Except.ok.inj (hb.symm.trans hfound)
  rw [hsame, hfrom, hrecords]
  exact one_lt_size

theorem bundle_arithmetic_total_iff_sample :
    (∃ b, readBundle samplePlatform startOfRange = .ok b ∧
      b.records.length = 1) ∧
    ∃ verdict,
      verifyEvidenceBundleWord samplePlatform Words.exact startOfRange []
        none = some verdict ∧
      verifyEvidenceBundleWord samplePlatform Words.checked startOfRange []
        none = some verdict ∧
      verifyEvidenceBundleWord samplePlatform Words.wrapping startOfRange []
        none = some verdict := by
  obtain ⟨b, hread, _, hrecords⟩ := readBundle_soloBundle 0
    (signCheckpoint samplePlatform (sampleKey 1) lastRecord.hash 1 0)
    (signTreeHead samplePlatform (sampleKey 1) lastRecord.hash 1 0)
  obtain ⟨verdict, hexact, hchecked, _, hwrapping⟩ :=
    bundle_arithmetic_total_iff samplePlatform startOfRange [] none
      length_startOfRange
  exact ⟨⟨b, hread, hrecords⟩, verdict, hexact,
    hchecked.mpr sumFits_startOfRange, hwrapping sumFits_startOfRange⟩

/-- The last number of a word. -/
def lastSeq : UInt64 :=
  UInt64.ofNat (Words.size - 1)

theorem toNat_lastSeq : lastSeq.toNat = Words.size - 1 :=
  UInt64.toNat_ofNat_of_lt' (Nat.sub_lt (by simp [Words.size]) one_pos)

/-- A bundle of one record, said to be the last one a word can number. -/
def endOfRange (cp : Checkpoint) (th : TreeHead) : String :=
  soloBundle lastSeq cp th

theorem verify_endOfRange (cp : Checkpoint) (th : TreeHead)
    (keys : List VerifyingKey) (against : Option TreeHead) :
    verifyEvidenceBundleWord samplePlatform Words.checked (endOfRange cp th)
      keys against = none := by
  obtain ⟨b, hread, hfrom, hrecords⟩ := readBundle_soloBundle lastSeq cp th
  have hover : Words.size ≤ b.span.fromSeq.toNat + b.records.length := by
    rw [hfrom, hrecords, toNat_lastSeq]
    omega
  unfold verifyEvidenceBundleWord endOfRange
  rw [hread]
  exact judgeBundleWord_eq_none Words.agrees_checked
    (Words.add_checked_eq_none hover) against

theorem bundle_sum_overflows :
    ¬ ∀ (text : String) (keys : List VerifyingKey)
        (against : Option TreeHead),
      ∃ verdict, verifyEvidenceBundleWord samplePlatform Words.checked text
        keys against = some verdict := by
  intro hclaim
  obtain ⟨verdict, hverdict⟩ := hclaim
    (endOfRange
      (signCheckpoint samplePlatform (sampleKey 1) lastRecord.hash 0 0)
      (signTreeHead samplePlatform (sampleKey 1) "" 0 0)) [] none
  rw [verify_endOfRange] at hverdict
  cases hverdict

end Decern
