import Decern.BundleVerifier
import Decern.RecordReaders
import Mathlib.Tactic

/-!
# Evidence of a verified chain

The bundle cut from one snapshot of a chain that verifies is accepted, alone
and against the tree head of any of its beginnings.  Every record names the
key it was signed under, so any ring with those keys will do.
-/

namespace Decern

open ByteText (Bytes)

variable (P : Platform)

/-! ## Rings that hold the named keys -/

/-- A record that names a key of both rings is accepted alike. -/
theorem verifyRecord_named {keys ring : List VerifyingKey}
    (hkeys : keys ≠ []) {state next : VerifyState} {line : String}
    {record : RecordIn} {key : VerifyingKey}
    (hread : readRecord P line = .ok record)
    (hkid : record.kid = some (keyFingerprint key)) (hkey : key ∈ ring)
    (hok : verifyRecord P keys none state line = .ok next) :
    verifyRecord P ring none state line = .ok next := by
  rw [verifyRecord_eq_ok_iff] at hok ⊢
  obtain ⟨found, signers, records, haccepted, hrest⟩ := hok
  have hsame : found = record :=
    Except.ok.inj (haccepted.read.symm.trans hread)
  subst hsame
  refine ⟨found, signers, records, { haccepted with signature := ?_ }, hrest⟩
  have hsigned := haccepted.signature
  have hfilled : keys.isEmpty = false := by simpa using hkeys
  have hring : ring.isEmpty = false := by
    simpa using List.ne_nil_of_mem hkey
  unfold checkSignature at hsigned ⊢
  rw [hfilled] at hsigned
  rw [hring]
  unfold checkSigner at hsigned ⊢
  simp only [Bool.false_eq_true, if_false, hkid, recordSigner,
    find?_keyFingerprint hkey] at hsigned ⊢
  -- the name leads to one key, whichever ring it is looked up in
  cases hfound : keys.find? fun other =>
      keyFingerprint other == keyFingerprint key with
  | none =>
      rw [hfound] at hsigned
      split at hsigned
      case h_1 => cases hsigned
      case h_2 =>
        split at hsigned
        case h_1 => cases hsigned
        case h_2 => cases hsigned
  | some other =>
      have hname := List.find?_some hfound
      have hother : other = key :=
        keyFingerprint_injective (by simpa using hname)
      rw [hfound, hother] at hsigned
      exact hsigned

/-- Every record names a key of the ring. -/
def NamesKeysOf (ring : List VerifyingKey) (records : List RecordOut) :
    Prop :=
  ∀ record ∈ records, ∃ key ∈ ring, record.kid = some (keyFingerprint key)

theorem verifyFrom_named {keys ring : List VerifyingKey} (hkeys : keys ≠ [])
    {records : List RecordOut} (hnames : NamesKeysOf ring records)
    {state final : VerifyState}
    (hok : verifyFrom P keys none state
      ((records.map (RecordOut.line P)).map Except.ok) = .ok final) :
    verifyFrom P ring none state
      ((records.map (RecordOut.line P)).map Except.ok) = .ok final := by
  induction records generalizing state with
  | nil => exact hok
  | cons record rest ih =>
      obtain ⟨key, hkey, hkid⟩ := hnames record (by simp)
      have hblank := line_not_blank P record
      rw [List.map_cons, List.map_cons, verifyFrom_cons,
        verifyLine_of_not_blank P _ _ _ hblank] at hok ⊢
      cases hrecord : verifyRecord P keys none state (record.line P) with
      | error error =>
          rw [hrecord] at hok
          cases hok
      | ok next =>
          rw [hrecord] at hok
          rw [verifyRecord_named P hkeys (readRecord_line P record) hkid hkey
            hrecord]
          exact ih (fun other hother => hnames other (by simp [hother])) hok

/-! ## A chain to export -/

theorem leavesOf_stored_eq_some_iff {records : List RecordOut}
    {leaves : List Bytes} :
    leavesOf (records.map (RecordOut.stored P)) = some leaves ↔
      HashedTo records leaves := by
  induction records generalizing leaves with
  | nil => simp [leavesOf, HashedTo, eq_comm]
  | cons record rest ih =>
      unfold leavesOf HashedTo at ih ⊢
      rw [List.map_cons, List.mapM_cons, List.forall₂_cons_left_iff]
      simp only [Option.bind_eq_bind, Option.bind_eq_some_iff,
        Option.pure_def, Option.some.injEq, ih, RecordOut.stored]
      constructor
      · rintro ⟨leaf, hleaf, others, hothers, rfl⟩
        exact ⟨leaf, others, hleaf, hothers, rfl⟩
      · rintro ⟨leaf, others, hleaf, hothers, rfl⟩
        exact ⟨leaf, hleaf, others, hothers, rfl⟩

/-- Records that verify up to a head, each read under `depth` brackets and
named after a key of the ring. -/
structure Exportable (depth : ℕ) (ring : List VerifyingKey)
    (records : List RecordOut) (head : String) : Prop where
  verified : ∃ keys state, keys ≠ [] ∧
    verifyState P keys none
      ((records.map (RecordOut.line P)).map Except.ok) = .ok state ∧
    state.prev = head
  named : NamesKeysOf ring records
  within : ∀ record ∈ records, record.entry.ReadsUnder depth

/-- The bundle under one key of records with these leaves. -/
def bundleOver (key : SigningKey) (head : String)
    (records : List RecordOut) (leaves : List Bytes) (tsMs : UInt64) :
    String :=
  bundleJson
    (signCheckpoint P key head (UInt64.ofNat records.length) tsMs)
    (treeHeadOver P key leaves tsMs) (records.map (RecordOut.line P))

namespace Exportable

variable {P} {depth : ℕ} {ring : List VerifyingKey}
  {records : List RecordOut} {head : String}

theorem readRecords_lines (records : List RecordOut) :
    ReadRecords P (records.map (RecordOut.line P))
      (records.map (RecordOut.stored P)) := by
  unfold ReadRecords
  rw [List.forall₂_map_left_iff, List.forall₂_map_right_iff,
    List.forall₂_same]
  exact fun record _ => readRecord_line P record

theorem state (hexport : Exportable P depth ring records head) :
    ∃ state, verifyFrom P ring none {}
        ((records.map (RecordOut.line P)).map Except.ok) = .ok state ∧
      state.prev = head := by
  obtain ⟨keys, state, hkeys, hstate, hhead⟩ := hexport.verified
  exact ⟨state, verifyFrom_named P hkeys hexport.named hstate, hhead⟩

/-- What the bundle verifier asks of the records. -/
theorem checks (hexport : Exportable P depth ring records head)
    (hring : ring ≠ []) (hfits : records.length < UInt64.size) :
    (checkChain P 0 (some genesis)
        (records.map (RecordOut.stored P))).ok = true ∧
      (checkRecordSigs P ring 0 0 []
        (records.map (RecordOut.stored P))).1 = true ∧
      Numbered P 0 (records.map (RecordOut.stored P)) := by
  obtain ⟨state, hstate, _⟩ := hexport.state
  have hcount : (0 : ℕ) + (records.map (RecordOut.stored P)).length <
      UInt64.size := by simpa using hfits
  exact (verifyFrom_iff_checks P hring (readRecords_lines records) {} 0
    hcount).mp ⟨state, hstate⟩

theorem numbered (hexport : Exportable P depth ring records head)
    (hdepth : 1 ≤ depth) (hring : ring ≠ [])
    (hfits : records.length < UInt64.size) {index : ℕ} {record : RecordOut}
    (hrecord : records[index]? = some record) :
    record.entry.seq = index := by
  have hstored : (records.map (RecordOut.stored P))[index]? =
      some (record.stored P) := by
    rw [List.getElem?_map, hrecord, Option.map_some]
  obtain ⟨entry, hentry, hseq⟩ := (hexport.checks hring hfits).2.2 index
    (record.stored P) hstored
  obtain ⟨read, hread, hsame⟩ := parseEntry_entryJson_of_withinLimit P
    ((hexport.within record (List.mem_of_getElem? hrecord)).mono hdepth)
  have heq : entry = read := Except.ok.inj (hentry.symm.trans hread)
  rw [heq, hsame] at hseq
  exact hseq.trans (Nat.zero_add index)

theorem seq_lt (hexport : Exportable P depth ring records head)
    (hdepth : 1 ≤ depth) (hring : ring ≠ [])
    (hfits : records.length < UInt64.size) :
    ∀ record ∈ records, record.entry.seq < 2 ^ 64 := by
  intro record hrecord
  obtain ⟨index, hindex⟩ := List.getElem?_of_mem hrecord
  have hlt := (List.getElem?_eq_some_iff.mp hindex).1
  rw [hexport.numbered hdepth hring hfits hindex]
  exact hlt.trans hfits

theorem values (hexport : Exportable P 2 ring records head)
    (hring : ring ≠ []) (hfits : records.length < UInt64.size) :
    ∃ values, ValuesOf P records values :=
  exists_valuesOf (hexport.seq_lt (by omega) hring hfits) hexport.within

theorem leaves (hexport : Exportable P depth ring records head)
    (hring : ring ≠ []) (hfits : records.length < UInt64.size) :
    ∃ leaves, HashedTo records leaves := by
  obtain ⟨hchain, _, _⟩ := hexport.checks hring hfits
  exact ⟨_, (leavesOf_stored_eq_some_iff P).mp
    (leavesOf_of_checkChain P hchain)⟩

theorem root (hexport : Exportable P depth ring records head)
    (hring : ring ≠ []) :
    head = (records.map RecordOut.hash).getLastD genesis := by
  obtain ⟨state, hstate, hhead⟩ := hexport.state
  have hfinal := (verifyFrom_final P hring (readRecords_lines records)
    hstate).2
  rw [← hhead, hfinal, List.map_map]
  rfl

/-- The bundle of a snapshot is accepted, also against the tree head of any
of its beginnings. -/
theorem accepted (hexport : Exportable P depth ring records head)
    (hfits : records.length < UInt64.size) {key : SigningKey}
    (hkey : P.verifyingKey key ∈ ring) {leaves : List Bytes}
    (hleaves : HashedTo records leaves) (tsMs : UInt64)
    (against : Option TreeHead)
    (hagainst : ∀ earlier, against = some earlier → ∃ other size earlierMs,
      P.verifyingKey other ∈ ring ∧ 1 ≤ size ∧ size ≤ records.length ∧
      earlier = treeHeadOver P other (leaves.take size) earlierMs) :
    (verifyEvidenceBundle P (bundleOver P key head records leaves tsMs)
      ring against).accepted = true := by
  have hring := List.ne_nil_of_mem hkey
  obtain ⟨hchain, hsigs, _⟩ := hexport.checks hring hfits
  have hstored := (leavesOf_stored_eq_some_iff P).mpr hleaves
  have hlength : leaves.length = records.length := hleaves.length_eq.symm
  have hlast : ∀ record, records.getLast? = some record →
      record.hash = head := by
    intro record hrecord
    rw [hexport.root hring, List.getLastD_eq_getLast?, List.getLast?_map,
      hrecord]
    rfl
  have hpasses := bundleOf_passes P hkey hfits tsMs hchain hsigs hlast
    hstored
  have hread := readBundle_bundleJson P
    (signCheckpoint P key head (UInt64.ofNat records.length) tsMs)
    (treeHeadOver P key leaves tsMs) records hfits
  rw [← hlength] at hpasses
  refine (verifyEvidenceBundle_accepted_iff P _ _ _).mpr ⟨_, hread, ?_⟩
  rw [treeHeadOver, ← hlength]
  refine (judgeBundle_accepted_iff P _ _ _).mpr
    ⟨_, hpasses, fun earlier hearlier => ⟨rfl, ?_⟩⟩
  obtain ⟨other, size, earlierMs, hother, hpos, hle, rfl⟩ :=
    hagainst earlier hearlier
  have hown := leavesOf_of_checkChain P hchain
  rw [hstored, Option.some.injEq] at hown
  have hconsistent : checkConsistency P ring leaves
      (signTreeHead P other (merkleRootHex P (leaves.take size))
        (UInt64.ofNat size) earlierMs)
      (signTreeHead P key (merkleRootHex P leaves)
        (UInt64.ofNat leaves.length) tsMs) = true :=
    checkConsistency_signTreeHead P hother hpos (by omega) (by omega)
      earlierMs tsMs
  have hsize : (leaves.take size).length = size := by
    rw [List.length_take]
    omega
  rw [treeHeadOver, hsize]
  simp only [bundleOf] at hown ⊢
  rw [← hown]
  exact hconsistent

/-- A tree head over no leaves has no size. -/
theorem one_le_size {other : SigningKey} {leaves : List Bytes} {size : ℕ}
    {tsMs : UInt64}
    (hpos : 1 ≤ (treeHeadOver P other (leaves.take size) tsMs).treeSize) :
    1 ≤ size := by
  by_contra hzero
  have hnil : size = 0 := by omega
  have hempty : (treeHeadOver P other (leaves.take size) tsMs).treeSize =
      0 := by
    rw [hnil]
    rfl
  rw [hempty] at hpos
  exact absurd hpos (by decide)

end Exportable

end Decern
