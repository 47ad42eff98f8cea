import Decern.BundleText
import Decern.LedgerTamper
import Decern.RecordValue
import Mathlib.Tactic

/-!
# The bundle verifier and the ledger verifier

Both read the same records and recompute the same chain, signatures and
succession.  Only the ledger verifier reads the entries and their numbers, so
over the records of a bundle it accepts exactly what the bundle verifier
accepts with every entry in its place.
-/

namespace Decern

open ByteText (Bytes)
open JsonText (Doc)
open Serde (Value)

variable (P : Platform)

/-! ## Lines that hold records -/

/-- The lines are the texts of the records. -/
def ReadRecords (lines : List String) (records : List RecordIn) : Prop :=
  List.Forall₂ (fun line record => readRecord P line = .ok record) lines
    records

/-! ## One record -/

/-- Entries that parse, numbered in order. -/
def Numbered (start : ℕ) (records : List RecordIn) : Prop :=
  ∀ i record, records[i]? = some record →
    ∃ entry, parseEntry P record.entry = .ok entry ∧ entry.seq = start + i

theorem numbered_cons_iff {start : ℕ} {record : RecordIn}
    {rest : List RecordIn} :
    Numbered P start (record :: rest) ↔
      (∃ entry, parseEntry P record.entry = .ok entry ∧
        entry.seq = start) ∧ Numbered P (start + 1) rest := by
  constructor
  · intro hall
    refine ⟨hall 0 record rfl, fun i other hother => ?_⟩
    obtain ⟨entry, hentry, hseq⟩ := hall (i + 1) other hother
    exact ⟨entry, hentry, by omega⟩
  · rintro ⟨hfirst, hrest⟩ i other hother
    cases i with
    | zero =>
        cases hother
        exact hfirst
    | succ i =>
        obtain ⟨entry, hentry, hseq⟩ := hrest i other hother
        exact ⟨entry, hentry, by omega⟩

theorem checkChain_cons_ok_iff {index : ℕ} {prev : String}
    {record : RecordIn} {rest : List RecordIn} :
    (checkChain P index (some prev) (record :: rest)).ok = true ↔
      record.prev = prev ∧
      HexText.encode (chainHash P (ByteText.encode record.entry)
        record.prev) = record.hash ∧
      (checkChain P (index + 1) (some record.hash) rest).ok = true := by
  simp only [checkChain, Bool.and_eq_true, beq_iff_eq, Option.all_some]
  constructor
  · rintro ⟨⟨⟨hhash, hprev⟩, _⟩, hrest⟩
    exact ⟨hprev, hhash, hrest⟩
  · rintro ⟨hprev, hhash, hrest⟩
    refine ⟨⟨⟨hhash, hprev⟩, ?_⟩, hrest⟩
    rw [← hhash, HexText.decode_encode]
    rfl

theorem checkRecordSigs_cons_ok_iff {keys : List VerifyingKey} {index : ℕ}
    {signers : List SignerSpan} {record : RecordIn} {rest : List RecordIn}
    {hash : Bytes} (hhash : HexText.encode hash = record.hash)
    (hindex : index < UInt64.size) :
    (checkRecordSigs P keys 0 index signers (record :: rest)).1 = true ↔
      ∃ next, checkSigner P signers keys index hash record.sigB64
          record.kid = .ok next ∧
        (checkRecordSigs P keys 0 (index + 1) next rest).1 = true := by
  have hdecode : HexText.decode record.hash = some hash := by
    rw [← hhash, HexText.decode_encode]
  have hseq : min ((0 : UInt64).toNat + index) (UInt64.size - 1) =
      index := by
    have hzero : (0 : UInt64).toNat = 0 := rfl
    omega
  rw [checkRecordSigs, hdecode]
  simp only [hseq]
  cases checkSigner P signers keys index hash record.sigB64 record.kid with
  | error why => simp
  | ok next => simp

/-- A line the ledger verifier reads next is accepted exactly when its record
passes the bundle verifier's checks and its entry is in its place. -/
theorem verifyRecord_iff_checks {keys : List VerifyingKey}
    (hkeys : keys ≠ []) {state next : VerifyState} {line : String}
    {record : RecordIn} (hread : readRecord P line = .ok record) :
    verifyLine P keys none state (.ok line) = .ok next ↔
      (∃ entry, parseEntry P record.entry = .ok entry ∧
        entry.seq = state.count) ∧
      record.prev = state.prev ∧
      HexText.encode (chainHash P (ByteText.encode record.entry)
        record.prev) = record.hash ∧
      ∃ signers, checkSigner P state.signers keys state.count
          (chainHash P (ByteText.encode record.entry) record.prev)
          record.sigB64 record.kid = .ok signers ∧
        next = state.after record signers state.records := by
  have hnonempty : keys.isEmpty = false := by simpa using hkeys
  rw [verifyLine_of_not_blank P keys none state
    (not_blank_of_readRecord P hread), verifyRecord_eq_ok_iff]
  constructor
  · rintro ⟨found, signers, records, haccepted, hrecords, rfl⟩
    have hsame : found = record := by
      have hboth := haccepted.read.symm.trans hread
      exact Except.ok.inj hboth
    subst hsame
    have hsigned := haccepted.signature
    simp only [checkSignature, hnonempty, Bool.false_eq_true, if_false]
      at hsigned
    cases hrecords
    exact ⟨haccepted.entry, haccepted.prev, haccepted.hash, signers,
      hsigned, rfl⟩
  · rintro ⟨hentry, hprev, hhash, signers, hsigned, rfl⟩
    refine ⟨record, signers, state.records,
      { read := hread, entry := hentry, prev := hprev, hash := hhash
        signature := ?_ }, rfl, rfl⟩
    simpa [checkSignature, hnonempty] using hsigned

/-! ## All records -/

/-- Over the same records the ledger verifier accepts exactly what the bundle
verifier accepts with every entry in its place. -/
theorem verifyFrom_iff_checks {keys : List VerifyingKey} (hkeys : keys ≠ [])
    {lines : List String} {records : List RecordIn}
    (hlines : ReadRecords P lines records) (state : VerifyState)
    (index : ℕ) (hfits : state.count + records.length < UInt64.size) :
    (∃ final, verifyFrom P keys none state (lines.map Except.ok) =
        .ok final) ↔
      (checkChain P index (some state.prev) records).ok = true ∧
      (checkRecordSigs P keys 0 state.count state.signers records).1 =
        true ∧
      Numbered P state.count records := by
  induction hlines generalizing state index with
  | nil =>
      constructor
      · intro _
        exact ⟨rfl, rfl, fun i record hrecord => by cases hrecord⟩
      · intro _
        exact ⟨state, rfl⟩
  | @cons line record lines records hread _ ih =>
      rw [List.length_cons] at hfits
      rw [List.map_cons, checkChain_cons_ok_iff, numbered_cons_iff]
      constructor
      · rintro ⟨final, hok⟩
        rw [verifyFrom_cons] at hok
        cases hline : verifyLine P keys none state (.ok line) with
        | error error =>
            rw [hline] at hok
            cases hok
        | ok next =>
            rw [hline] at hok
            obtain ⟨hentry, hprev, hhash, signers, hsigned, rfl⟩ :=
              (verifyRecord_iff_checks P hkeys hread).mp hline
            obtain ⟨hchain, hsigs, hnumbered⟩ :=
              (ih _ (index + 1)
                (by simp only [VerifyState.after]; omega)).mp ⟨final, hok⟩
            exact ⟨⟨hprev, hhash, hchain⟩,
              (checkRecordSigs_cons_ok_iff P hhash (by omega)).mpr
                ⟨signers, hsigned, hsigs⟩, hentry, hnumbered⟩
      · rintro ⟨⟨hprev, hhash, hchain⟩, hsigs, hentry, hnumbered⟩
        obtain ⟨signers, hsigned, hrest⟩ :=
          (checkRecordSigs_cons_ok_iff P hhash (by omega)).mp hsigs
        have hline := (verifyRecord_iff_checks P hkeys hread).mpr
          ⟨hentry, hprev, hhash, signers, hsigned, rfl⟩
        have hafter : (state.after record signers state.records).count +
            records.length < UInt64.size := by
          simp only [VerifyState.after]
          omega
        obtain ⟨final, hok⟩ :=
          (ih _ (index + 1) hafter).mpr ⟨hchain, hrest, hnumbered⟩
        refine ⟨final, ?_⟩
        rw [verifyFrom_cons, hline]
        exact hok

/-- Where the verifier ends: at the last record's hash. -/
theorem verifyFrom_final {keys : List VerifyingKey} (hkeys : keys ≠ [])
    {lines : List String} {records : List RecordIn}
    (hlines : ReadRecords P lines records) {state final : VerifyState}
    (hok : verifyFrom P keys none state (lines.map Except.ok) =
      .ok final) :
    final.count = state.count + records.length ∧
      final.prev = (records.map RecordIn.hash).getLastD state.prev := by
  induction hlines generalizing state with
  | nil =>
      cases hok
      exact ⟨rfl, rfl⟩
  | @cons line record lines records hread _ ih =>
      rw [List.map_cons, verifyFrom_cons] at hok
      cases hline : verifyLine P keys none state (.ok line) with
      | error error =>
          rw [hline] at hok
          cases hok
      | ok next =>
          rw [hline] at hok
          obtain ⟨_, _, _, signers, _, rfl⟩ :=
            (verifyRecord_iff_checks P hkeys hread).mp hline
          obtain ⟨hcount, hprev⟩ := ih hok
          constructor
          · rw [hcount, List.length_cons]
            simp only [VerifyState.after]
            omega
          · rw [hprev, List.map_cons, List.getLastD_cons]
            rfl

/-- What the ledger verifier reports on the records of a bundle. -/
def ReportsBundle (keys : List VerifyingKey) (lines : List String)
    (b : BundleIn) : Prop :=
  ∃ report records,
    verifyLines P keys none (lines.map Except.ok) = .ok (report, records) ∧
    report.entries = b.records.length ∧
    report.root = some b.checkpoint.root

/-- On the records of an accepted full tail, the ledger verifier reports the
bundle's count and root exactly when there are records and each holds an entry
numbered by its position. -/
theorem reportsBundle_iff_numbered (text : String)
    (keys : List VerifyingKey) (against : Option TreeHead) (b : BundleIn)
    (lines : List String) (hkeys : keys ≠ [])
    (hread : readBundle P text = .ok b) (hfull : b.span.fromSeq = 0)
    (haccept : (verifyEvidenceBundle P text keys against).accepted = true)
    (hlines : ReadRecords P lines b.records) :
    ReportsBundle P keys lines b ↔
      b.records ≠ [] ∧ Numbered P 0 b.records := by
  obtain ⟨found, hfound, hjudged⟩ :=
    (verifyEvidenceBundle_accepted_iff P text keys against).mp haccept
  have hsame : found = b := Except.ok.inj (hfound.symm.trans hread)
  subst hsame
  obtain ⟨th, hpasses, _⟩ :=
    (judgeBundle_accepted_iff P found keys against).mp hjudged
  have hchain := hpasses.chain
  have hsigs := hpasses.sigs
  rw [hfull] at hchain hsigs
  simp only [beq_self_eq_true, if_true] at hchain
  have hchecks := verifyFrom_iff_checks P hkeys hlines {} 0
    (by simpa using found.fits)
  constructor
  · rintro ⟨report, records, hok, _, hroot⟩
    obtain ⟨final, hstate, rfl, _⟩ := verifyLines_eq_ok P hok
    refine ⟨fun hnil => ?_, (hchecks.mp ⟨final, hstate⟩).2.2⟩
    have hcount := (verifyFrom_final P hkeys hlines hstate).1
    simp [VerifyState.report, hcount, hnil] at hroot
  · rintro ⟨hne, hnumbered⟩
    obtain ⟨final, hstate⟩ := hchecks.mpr ⟨hchain, hsigs, hnumbered⟩
    obtain ⟨hcount, hprev⟩ := verifyFrom_final P hkeys hlines hstate
    have hlast := List.getLast?_eq_getLast_of_ne_nil hne
    have hpos : 0 < found.records.length := List.length_pos_iff.mpr hne
    refine ⟨_, _, verifyLines_of_verifyState P hstate, ?_, ?_⟩
    · simpa [VerifyState.report] using hcount
    · simp only [VerifyState.report]
      rw [if_pos (by omega), hprev, ← hpasses.last _ hlast,
        List.getLastD_eq_getLast?, List.getLast?_map, hlast]
      rfl

theorem reportsBundle_iff_numbered_sample :
    ReportsBundle samplePlatform [sampleKey 1] [sampleLine]
        (oneRecordBundle samplePlatform (sampleKey 1) (sampleEntry .null)) ↔
      (oneRecordBundle samplePlatform (sampleKey 1)
          (sampleEntry .null)).records ≠ [] ∧
        Numbered samplePlatform 0 (oneRecordBundle samplePlatform
          (sampleKey 1) (sampleEntry .null)).records :=
  reportsBundle_iff_numbered samplePlatform
    (oneRecordJson samplePlatform (sampleKey 1) (sampleEntry .null))
    [sampleKey 1] none _ _ (by simp)
    (readBundle_oneRecordJson samplePlatform _ _) rfl
    (oneRecord_accepted samplePlatform _ _ none (by simp))
    (.cons (readRecord_line samplePlatform _) .nil)

/-- The entry of the first record, numbered as the sixth. -/
def misnumberedEntry : Entry :=
  { sampleEntry .null with seq := 5 }

/-- The bundle verifier accepts a record that the ledger verifier refuses. -/
theorem misnumbered_bundle_accepted :
    ¬ ∀ (text : String) (keys : List VerifyingKey)
        (against : Option TreeHead) (b : BundleIn) (lines : List String),
      keys ≠ [] → readBundle samplePlatform text = .ok b →
      b.span.fromSeq = 0 →
      (verifyEvidenceBundle samplePlatform text keys against).accepted =
        true →
      ReadRecords samplePlatform lines b.records →
      ReportsBundle samplePlatform keys lines b := by
  intro hclaim
  have hreports := hclaim
    (oneRecordJson samplePlatform (sampleKey 1) misnumberedEntry)
    [sampleKey 1] none _ [_] (by simp)
    (readBundle_oneRecordJson samplePlatform _ _) rfl
    (oneRecord_accepted samplePlatform _ _ none (by simp))
    (.cons (readRecord_line samplePlatform _) .nil)
  obtain ⟨report, records, hok, _, _⟩ := hreports
  obtain ⟨final, hstate, _, _⟩ := verifyLines_eq_ok samplePlatform hok
  have hnumbered := ((verifyFrom_iff_checks samplePlatform (by simp)
    (.cons (readRecord_line samplePlatform _) .nil) {} 0
    one_lt_size).mp ⟨final, hstate⟩).2.2
  obtain ⟨entry, hentry, hseq⟩ := hnumbered 0 _ rfl
  have hwithin : misnumberedEntry.WithinLimit := by decide
  obtain ⟨read, hread, hreadSeq⟩ :=
    parseEntry_entryJson_of_withinLimit samplePlatform hwithin
  have hsame : entry = read := Except.ok.inj (hentry.symm.trans hread)
  rw [hsame, hreadSeq] at hseq
  cases hseq

/-! ## Growth from an earlier head -/

theorem checkConsistency_eq_true_iff {keys : List VerifyingKey}
    {leaves : List Bytes} {earlier current : TreeHead} :
    checkConsistency P keys leaves earlier current = true ↔
      keys.any (verifyTreeHeadSig P earlier) = true ∧
      earlier.treeSize.toNat ≤ leaves.length ∧
      ∃ path firstRoot secondRoot,
        consistencyProof P leaves earlier.treeSize.toNat = some path ∧
        hexTo32 earlier.merkleRoot = some firstRoot ∧
        hexTo32 current.merkleRoot = some secondRoot ∧
        verifyConsistency P earlier.treeSize.toNat current.treeSize.toNat
          firstRoot secondRoot path = true := by
  unfold checkConsistency
  simp only [Bool.and_eq_true, decide_eq_true_eq, and_assoc,
    Option.any_eq_true]
  constructor
  · rintro ⟨hsig, hle, path, hpath, hverify⟩
    split at hverify
    case h_1 firstRoot secondRoot hfirst hsecond =>
      exact ⟨hsig, hle, path, firstRoot, secondRoot, hpath, hfirst, hsecond,
        hverify⟩
    case h_2 => cases hverify
  · rintro ⟨hsig, hle, path, firstRoot, secondRoot, hpath, hfirst, hsecond,
      hverify⟩
    refine ⟨hsig, hle, path, hpath, ?_⟩
    rw [hfirst, hsecond]
    exact hverify

theorem consistencyProof_eq_some {leaves : List Bytes} {size : ℕ}
    {path : List Digest}
    (hpath : consistencyProof P leaves size = some path) :
    1 ≤ size ∧ size ≤ leaves.length ∧
      path = Merkle.subproof (merkleHashing P) leaves size true := by
  unfold consistencyProof Merkle.consistencyProof at hpath
  split at hpath
  case isTrue => cases hpath
  case isFalse hrange =>
    cases hpath
    exact ⟨by omega, by omega, rfl⟩

/-- A bundle accepted against an earlier head is a full tail under its own
signed tree head, and the earlier head commits to its first records. -/
theorem bundle_proves_growth (text : String) (keys : List VerifyingKey)
    (earlier : TreeHead)
    (haccept : (verifyEvidenceBundle P text keys (some earlier)).accepted =
      true) :
    ∃ b th leaves,
      readBundle P text = .ok b ∧ b.span.fromSeq = 0 ∧
      b.treeHead = some th ∧
      (∃ key ∈ keys, verifyTreeHeadSig P th key = true) ∧
      th.treeSize.toNat = b.records.length ∧
      b.checkpoint.count.toNat = b.records.length ∧
      leavesOf b.records = some leaves ∧
      th.merkleRoot = merkleRootHex P leaves ∧
      (∃ key ∈ keys, verifyTreeHeadSig P earlier key = true) ∧
      1 ≤ earlier.treeSize.toNat ∧
      earlier.treeSize.toNat ≤ b.records.length ∧
      ∃ firstRoot path,
        hexTo32 earlier.merkleRoot = some firstRoot ∧
        consistencyProof P leaves earlier.treeSize.toNat = some path ∧
        (P.CollisionFree (treeInputs P leaves ++
            consistencyInputs P earlier.treeSize.toNat leaves.length
              firstRoot path) →
          firstRoot = treeHash P (leaves.take earlier.treeSize.toNat)) := by
  obtain ⟨b, hread, hjudged⟩ :=
    (verifyEvidenceBundle_accepted_iff P text keys (some earlier)).mp haccept
  obtain ⟨th, hpasses, hagainst⟩ :=
    (judgeBundle_accepted_iff P b keys (some earlier)).mp hjudged
  obtain ⟨hfull, hconsistent⟩ := hagainst earlier rfl
  have hchain := hpasses.chain
  rw [hfull] at hchain
  simp only [beq_self_eq_true, if_true] at hchain
  have hleaves := leavesOf_of_checkChain P hchain
  have hlength := length_of_leavesOf hleaves
  have hroot := hpasses.merkleRoot hfull
  -- the record count fits a machine word, so the three sizes agree
  have hcount : b.checkpoint.count.toNat = b.records.length := by
    rw [← hpasses.count, hfull, UInt64.zero_add, UInt64.toNat_ofNat',
      Nat.mod_eq_of_lt b.fits]
  have hsize : th.treeSize.toNat = b.records.length := by
    rw [hpasses.treeSize, hcount]
  obtain ⟨hsig, hle, path, firstRoot, secondRoot, hpath, hfirst, hsecond,
    hverify⟩ := (checkConsistency_eq_true_iff P).mp hconsistent
  obtain ⟨hpos, _, _⟩ := consistencyProof_eq_some P hpath
  have hsecondRoot : secondRoot = treeHash P
      (checkChain P 0 (some genesis) b.records).leaves := by
    rw [← hroot, merkleRootHex, hexTo32_encode] at hsecond
    exact (Option.some.inj hsecond).symm
  rw [hsecondRoot, hsize, ← hlength] at hverify
  refine ⟨b, th, _, hread, hfull, hpasses.treeHead,
    List.any_eq_true.mp hpasses.treeHeadSig, hsize, hcount, hleaves,
    hroot.symm, List.any_eq_true.mp hsig, hpos, by omega, firstRoot, path,
    hfirst, hpath, fun hfree => ?_⟩
  exact Merkle.eq_treeHash_of_verifyConsistency hpos hle hverify
    (joinsApart_of_collisionFree P hfree)

/-- Two records sealed by one key. -/
def twoRecords (key : SigningKey) (first second : Entry) : List RecordOut :=
  [sealRecord P key first genesis,
    sealRecord P key second (sealRecord P key first genesis).hash]

/-- Their hashes, the leaves of the tree. -/
def twoLeaves (key : SigningKey) (first second : Entry) : List Bytes :=
  [chainHash P (ByteText.encode (entryJson P first)) genesis,
    chainHash P (ByteText.encode (entryJson P second))
      (sealRecord P key first genesis).hash]

theorem two_lt_size : 2 < UInt64.size := by decide

def twoRecordsHead (key : SigningKey) (first second : Entry) : TreeHead :=
  signTreeHead P key (merkleRootHex P (twoLeaves P key first second)) 2 0

def twoRecordsCheckpoint (key : SigningKey) (first second : Entry) :
    Checkpoint :=
  signCheckpoint P key (sealRecord P key second
    (sealRecord P key first genesis).hash).hash 2 0

def twoRecordsJson (key : SigningKey) (first second : Entry) : String :=
  bundleJson (twoRecordsCheckpoint P key first second)
    (twoRecordsHead P key first second)
    ((twoRecords P key first second).map (RecordOut.line P))

/-- The head signed after the first of them. -/
def firstRecordHead (key : SigningKey) (first : Entry) : TreeHead :=
  signTreeHead P key (merkleRootHex P [chainHash P
    (ByteText.encode (entryJson P first)) genesis]) 1 0

theorem readBundle_twoRecordsJson (key : SigningKey)
    (first second : Entry) :
    readBundle P (twoRecordsJson P key first second) =
      .ok (bundleOf P (twoRecordsCheckpoint P key first second)
        (twoRecordsHead P key first second)
        (twoRecords P key first second) two_lt_size) :=
  readBundle_bundleJson P _ _ _ _

theorem twoRecords_passes (key : SigningKey) (first second : Entry) :
    BundlePasses P (bundleOf P (twoRecordsCheckpoint P key first second)
        (twoRecordsHead P key first second)
        (twoRecords P key first second) two_lt_size)
      [P.verifyingKey key] (twoRecordsHead P key first second) := by
  have hkey : P.verifyingKey key ∈ [P.verifyingKey key] :=
    List.mem_singleton.mpr rfl
  have hfits : (twoRecords P key first second).length < UInt64.size :=
    two_lt_size
  refine bundleOf_passes P hkey hfits 0 ?_ ?_ ?_ ?_
  · -- the second record names the hash of the first
    exact (checkChain_cons_ok_iff P).mpr ⟨rfl, rfl,
      (checkChain_cons_ok_iff P).mpr ⟨rfl, rfl, rfl⟩⟩
  · refine (checkRecordSigs_cons_ok_iff P rfl (by decide)).mpr
      ⟨_, checkSigner_sealed P hkey (.inr rfl) 0 _, ?_⟩
    exact (checkRecordSigs_cons_ok_iff P rfl (by decide)).mpr
      ⟨_, checkSigner_sealed P hkey
        (.inl (Succession.current_extend _ _ _)) 1 _, rfl⟩
  · intro record hrecord
    cases hrecord
    rfl
  · simp [leavesOf, twoRecords, twoLeaves, RecordOut.stored, sealRecord]

/-- Both records are accepted against the head over the first. -/
theorem twoRecords_accepted (key : SigningKey) (first second : Entry) :
    (verifyEvidenceBundle P (twoRecordsJson P key first second)
      [P.verifyingKey key]
      (some (firstRecordHead P key first))).accepted = true := by
  have hpasses := twoRecords_passes P key first second
  refine (verifyEvidenceBundle_accepted_iff P _ _ _).mpr
    ⟨_, readBundle_twoRecordsJson P key first second, ?_⟩
  refine (judgeBundle_accepted_iff P _ _ _).mpr ⟨_, hpasses, ?_⟩
  rintro earlier ⟨⟩
  refine ⟨rfl, ?_⟩
  have hchain : (checkChain P 0 (some genesis) ((twoRecords P key first
      second).map (RecordOut.stored P))).ok = true := hpasses.chain
  have hown := leavesOf_of_checkChain P hchain
  have hleaves : leavesOf ((twoRecords P key first second).map
      (RecordOut.stored P)) = some (twoLeaves P key first second) := by
    simp [leavesOf, twoRecords, twoLeaves, RecordOut.stored, sealRecord]
  rw [hleaves, Option.some.injEq] at hown
  have hfits : (twoLeaves P key first second).length < UInt64.size :=
    two_lt_size
  have hone : 1 ≤ (twoLeaves P key first second).length := by
    simp [twoLeaves]
  have hconsistent : checkConsistency P [P.verifyingKey key]
      (twoLeaves P key first second) (firstRecordHead P key first)
      (twoRecordsHead P key first second) = true :=
    checkConsistency_signTreeHead P (List.mem_singleton.mpr rfl) le_rfl hone
      hfits 0 0
  rw [hown] at hconsistent
  exact hconsistent

/-- The head over the first record, against the bundle of both. -/
theorem bundle_proves_growth_sample :
    ∃ b leaves firstRoot path,
      readBundle samplePlatform (twoRecordsJson samplePlatform (sampleKey 1)
        (sampleEntry .null) { sampleEntry .null with seq := 1 }) = .ok b ∧
      b.records.length = 2 ∧
      leavesOf b.records = some leaves ∧
      hexTo32 (firstRecordHead samplePlatform (sampleKey 1)
        (sampleEntry .null)).merkleRoot = some firstRoot ∧
      consistencyProof samplePlatform leaves 1 = some path ∧
      (samplePlatform.CollisionFree (treeInputs samplePlatform leaves ++
          consistencyInputs samplePlatform 1 leaves.length firstRoot path) →
        firstRoot = treeHash samplePlatform (leaves.take 1)) := by
  have hgrowth := bundle_proves_growth samplePlatform
    (twoRecordsJson samplePlatform (sampleKey 1) (sampleEntry .null)
      { sampleEntry .null with seq := 1 })
    [sampleKey 1]
    (firstRecordHead samplePlatform (sampleKey 1) (sampleEntry .null))
    (twoRecords_accepted samplePlatform _ _ _)
  obtain ⟨b, _, leaves, hread, _, _, _, _, _, hleaves, _, _, _, _,
    firstRoot, path, hfirst, hpath, hroot⟩ := hgrowth
  have hlength : b.records.length = 2 := by
    rw [readBundle_twoRecordsJson, Except.ok.injEq] at hread
    rw [← hread]
    rfl
  exact ⟨b, leaves, firstRoot, path, hread, hlength, hleaves, hfirst, hpath,
    hroot⟩

end Decern
