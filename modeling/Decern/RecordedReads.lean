import Decern.AuditProjection
import Decern.EvidenceAccepted
import Decern.ReadWindows
import Decern.RequestNesting
import Mathlib.Tactic

/-!
# Reading what was recorded

A body is parsed with its context one level into it, and a line with the
context it records two levels into it.  Whatever a request records therefore
verifies and opens again, but its line is a value only where the context is a
level less deep than a body may have it, and the readers that need a line as a
value fail on the others.
-/

namespace Decern

open ByteText (Bytes newline)
open LineText (joined)
open Decide (DecideReq admitNamed admitReq evaluateOne parseDecideReq
  readDecideReq refuseDescriptionUnlessPep refuseUnlessAdmits refuseUnlessPep)
open Serde (Value docSource)

variable (P : Platform)

/-! ## Readers of a file or of segments -/

/-- The readers that take no line for a value: a verification under a ring,
and windows of the lines' own text. -/
structure Location.VerifiesUnder (ring : List VerifyingKey)
    (location : Location) : Prop where
  report : ∃ report, location.bind (verifyWithKeys P ring) = .ok report
  raw : ∀ offset limit, ∃ lines,
    Ledger.readRawRecords P location offset limit = .ok lines

/-- Every reader of a ledger succeeds. -/
structure Ledger.EveryReads (ring : List VerifyingKey) (ledger : Ledger)
    (location : Location) : Prop extends
    Location.VerifiesUnder P ring location where
  records : ∀ offset limit, ∃ values,
    Ledger.readRecords P location offset limit = .ok values
  verified : ∀ keys report offset limit,
    location.bind (verifyWithKeys P keys) = .ok report → ∃ values,
      readVerifiedWithKeys P location keys offset limit = .ok (report, values)
  leaves : ∃ leaves, ledger.merkleLeaves P location = .ok leaves
  treeHead : ∀ tsMs, ∃ head, ledger.treeHead P location tsMs = .ok head
  inclusion : ∀ seq < ledger.nextSeq, ∃ proof,
    ledger.inclusionProof P location seq = .ok proof
  inclusions : ∀ seqs : List ℕ, (∀ seq ∈ seqs, seq < ledger.nextSeq) →
    ∃ proofs, ledger.inclusionProofs P location seqs = .ok proofs
  consistency : ∀ firstSize, 1 ≤ firstSize → firstSize ≤ ledger.nextSeq →
    ∃ proof, ledger.consistencyProof P location firstSize = .ok proof
  snapshot : ∀ tsMs, ∃ snapshot,
    ledger.snapshotForBundle P location tsMs = .ok snapshot

section Locations

variable {P} {ring : List VerifyingKey} {location : Location}
  {records : List RecordOut} {ledger : Ledger}

/-- Only the lines of records are stored. -/
theorem Location.Stores.of_same_lines {others : List RecordOut}
    (hstores : location.Stores P others)
    (hsame : others.map (recordLine P) = records.map (recordLine P)) :
    location.Stores P records := by
  rcases hstores with ⟨files, hfiles, hlines⟩
  rw [map_line_of_map_recordLine P hsame] at hlines
  exact ⟨files, hfiles, hlines⟩

theorem Location.Stores.same_lines {others : List RecordOut}
    (hstores : location.Stores P records)
    (hothers : location.Stores P others) :
    records.map (RecordOut.line P) = others.map (RecordOut.line P) := by
  rcases hstores with ⟨files, rfl, hlines⟩
  rcases hothers with ⟨_, hfiles, hsame⟩
  cases hfiles
  rw [hlines] at hsame
  exact List.map_injective_iff.mpr (fun _ _ => Except.ok.inj)
    (congrArg Prod.fst hsame)

theorem recordLines_of_prefixLines {files : List LedgerFile}
    (hfiles : prefixLines files =
      ((records.map (RecordOut.line P)).map Except.ok, none)) :
    recordLines files = records.map (RecordOut.line P) := by
  have hlines := fst_prefixLines (congrArg Prod.snd hfiles)
  have htexts : textLines files = records.map (RecordOut.line P) := by
    rw [textLines, ← hlines, hfiles, List.filterMap_map]
    exact List.filterMap_some
  rw [recordLines, htexts]
  apply filter_of_all
  intro line hline
  rcases List.mem_map.mp hline with ⟨record, _, rfl⟩
  simp [notBlank, line_not_blank P record]

theorem Location.Stores.verifiesUnder (hstores : location.Stores P records)
    {head : String} (hexport : Exportable P 1 ring records head) :
    location.VerifiesUnder P ring where
  report := by
    rcases hexport.state with ⟨state, hstate, _⟩
    rcases hstores with ⟨files, rfl, hfiles⟩
    exact ⟨_, verifyWithKeys_of_verifyState hfiles hstate⟩
  raw := fun offset limit =>
    ⟨_, hstores.holds.readRawRecords offset limit (Or.inl rfl)⟩

theorem exists_inclusionProofOver {leaves : List Bytes} {seq : ℕ}
    (hseq : seq < leaves.length) :
    ∃ proof, inclusionProofOver P leaves seq = .ok proof := by
  have hpath : inclusionProof P leaves seq =
      some (Merkle.auditPath (merkleHashing P) leaves seq) := by
    rw [inclusionProof, Merkle.inclusionProof, if_neg (by omega)]
  unfold inclusionProofOver
  rw [hpath]
  exact ⟨_, rfl⟩

theorem exists_consistencyProofOver {leaves : List Bytes} {firstSize : ℕ}
    (hpos : 1 ≤ firstSize) (hle : firstSize ≤ leaves.length) :
    ∃ proof, consistencyProofOver P leaves firstSize = .ok proof := by
  have hpath : consistencyProof P leaves firstSize =
      some (Merkle.subproof (merkleHashing P) leaves firstSize true) := by
    rw [consistencyProof, Merkle.consistencyProof, if_neg (by omega)]
  unfold consistencyProofOver
  rw [hpath]
  exact ⟨_, rfl⟩

/-- A ledger whose lines are values is read by every reader. -/
theorem Location.Stores.everyReads (hstores : location.Stores P records)
    {head : String} (hexport : Exportable P 1 ring records head)
    (hring : ring ≠ []) (hfits : records.length < UInt64.size)
    (hcount : ledger.nextSeq = records.length) {values : List Value}
    (hvalues : ValuesOf P records values) :
    ledger.EveryReads P ring location := by
  rcases hexport.leaves hring hfits with ⟨leaves, hleaves⟩
  have hlength : leaves.length = ledger.nextSeq := by
    rw [hcount, hleaves.length_eq]
  have hread := hstores.holds.merkleLeaves hvalues hleaves hcount
  refine
    { hstores.verifiesUnder hexport with
      records := fun offset limit =>
        ⟨_, hstores.holds.readRecords hvalues offset limit (Or.inl rfl)⟩
      verified := ?_
      leaves := ⟨leaves, hread⟩
      treeHead := fun tsMs => ?_
      inclusion := fun seq hseq => ?_
      inclusions := fun seqs hseqs => ?_
      consistency := fun firstSize hpos hle => ?_
      snapshot := fun tsMs =>
        ⟨_, hstores.holds.snapshotForBundle hvalues hleaves hcount tsMs⟩ }
  · intro keys report offset limit hreport
    rcases hstores with ⟨files, rfl, hfiles⟩
    have hlines : recordLines files = records.map (RecordOut.line P) :=
      recordLines_of_prefixLines hfiles
    have haccepted : verifyWithKeys P keys files = .ok report := hreport
    have hread : List.Forall₂ (fun line value =>
        parseValue P line = some value) (recordLines files) values := by
      rw [hlines, List.forall₂_map_left_iff]
      exact hvalues
    have hentries : report.entries < 2 ^ 64 := by
      rw [(entries_eq_length haccepted).1, hlines, List.length_map]
      exact hfits
    exact ⟨_, readVerifiedWithKeys_texts offset limit haccepted hentries
      hread⟩
  · unfold Ledger.treeHead
    rw [hread]
    exact ⟨_, rfl⟩
  · unfold Ledger.inclusionProof
    rw [hread]
    exact exists_inclusionProofOver (by omega)
  · unfold Ledger.inclusionProofs
    rw [hread]
    refine mapM_eq_ok fun seq hseq => exists_inclusionProofOver ?_
    rw [hlength]
    exact hseqs seq hseq
  · unfold Ledger.consistencyProof
    rw [hread]
    exact exists_consistencyProofOver hpos (by omega)

end Locations

/-! ## Values within reach -/

section Reach

variable {P} {ring : List VerifyingKey} {records : List RecordOut}
  {head : String}

theorem Entry.lineWithinLimit_iff (entry : Entry) :
    entry.LineWithinLimit ↔ entry.context.nesting ≤ 125 := by
  unfold LineWithinLimit Serde.recursionLimit
  omega

/-- Records have values exactly when none has a context deeper than 125. -/
theorem exists_valuesOf_iff
    (hseq : ∀ record ∈ records, record.entry.seq < 2 ^ 64) :
    (∃ values, ValuesOf P records values) ↔
      ∀ record ∈ records, record.entry.context.nesting ≤ 125 := by
  constructor
  · rintro ⟨values, hvalues⟩ record hrecord
    rcases List.mem_iff_getElem.mp hrecord with ⟨index, hindex, rfl⟩
    have hvalue := (List.forall₂_iff_get.mp hvalues).2 index hindex
      (by rw [← hvalues.length_eq]; exact hindex)
    rw [← Entry.lineWithinLimit_iff, ← parseValue_line_isSome_iff P _
      (hseq _ hrecord)]
    exact Option.isSome_iff_exists.mpr ⟨_, hvalue⟩
  · intro hshallow
    exact exists_valuesOf hseq fun record hrecord =>
      (Entry.lineWithinLimit_iff _).mpr (hshallow record hrecord)

/-- Each record is numbered by its place. -/
def InOrder (records : List RecordOut) : Prop :=
  ∀ (index : ℕ) (record : RecordOut),
    records[index]? = some record → record.entry.seq = index

theorem Exportable.inOrder (hexport : Exportable P 1 ring records head)
    (hring : ring ≠ []) (hfits : records.length < UInt64.size) :
    InOrder records :=
  fun _ _ hrecord => hexport.numbered le_rfl hring hfits hrecord

theorem InOrder.seq_lt (hordered : InOrder records)
    (hfits : records.length < UInt64.size) :
    ∀ record ∈ records, record.entry.seq < 2 ^ 64 := by
  intro record hrecord
  rcases List.getElem?_of_mem hrecord with ⟨index, hindex⟩
  rw [hordered index record hindex]
  exact (List.getElem?_eq_some_iff.mp hindex).1.trans hfits

/-- How deep contexts are is in the lines. -/
theorem InOrder.shallow (hordered : InOrder records)
    (hfits : records.length < UInt64.size) {others : List RecordOut}
    (hsame : records.map (RecordOut.line P) =
      others.map (RecordOut.line P))
    (hothers : ∀ other ∈ others, other.entry.seq < 2 ^ 64 ∧
      other.entry.context.nesting ≤ 125) :
    ∀ record ∈ records, record.entry.context.nesting ≤ 125 := by
  intro record hrecord
  rw [← Entry.lineWithinLimit_iff]
  refine lineWithinLimit_of_same_lines P hsame (hordered.seq_lt hfits) ?_
    record hrecord
  intro other hother
  rw [Entry.lineWithinLimit_iff]
  exact hothers other hother

/-- The records a ledger counts are those stored at its location. -/
structure Ledger.Counted (P : Platform) (ledger : Ledger)
    (location : Location) (records : List RecordOut) : Prop where
  stored : location.Stores P records
  inOrder : InOrder records
  counted : ledger.nextSeq = records.length

/-- The records of a shard are those whose lines it stores. -/
structure Shard.Counted (P : Platform) (shard : Shard)
    (records : List RecordOut) : Prop where
  lines : shard.lines = records.map (RecordOut.line P)
  inOrder : InOrder records
  counted : shard.nextSeq = records.length

/-- A ledger is read by every reader exactly when no record has a context
deeper than 125. -/
theorem Location.Stores.everyReads_iff {location : Location}
    (hstores : location.Stores P records)
    (hexport : Exportable P 1 ring records head) (hring : ring ≠ [])
    (hfits : records.length < UInt64.size) {ledger : Ledger}
    (hcount : ledger.nextSeq = records.length) :
    ledger.EveryReads P ring location ↔
      ∀ record ∈ records, record.entry.context.nesting ≤ 125 := by
  rw [← exists_valuesOf_iff (hexport.seq_lt le_rfl hring hfits)]
  constructor
  · intro hreads
    rcases hreads.records 0 records.length with ⟨values, hwindow⟩
    rcases hstores.holds with ⟨files, rfl, hfiles⟩
    simp only [Ledger.readRecords, bind, Except.bind, hfiles,
      List.append_nil, List.drop_zero] at hwindow
    have hsome := isSome_of_readWindow hwindow (by simp)
    have hlines : ∀ line ∈ records.map (RecordOut.line P),
        (parseValue P line).isSome := by
      intro line hline
      apply hsome line hline
      rcases List.mem_map.mp hline with ⟨record, _, rfl⟩
      exact line_not_blank P record
    rcases exists_forall₂_of_isSome hlines with ⟨found, hfound⟩
    exact ⟨found, List.forall₂_map_left_iff.mp hfound⟩
  · rintro ⟨values, hvalues⟩
    exact hstores.everyReads hexport hring hfits hcount hvalues

/-- So a ledger has no deep context when the same lines have none. -/
theorem Ledger.Counted.shallow {ledger : Ledger} {location : Location}
    (hcounted : ledger.Counted P location records)
    (hfits : ledger.nextSeq < UInt64.size) {others : List RecordOut}
    (hstores : location.Stores P others)
    (hothers : ∀ other ∈ others, other.entry.seq < 2 ^ 64 ∧
      other.entry.context.nesting ≤ 125) :
    ∀ record ∈ records, record.entry.context.nesting ≤ 125 := by
  rw [hcounted.counted] at hfits
  exact hcounted.inOrder.shallow hfits (hcounted.stored.same_lines hstores)
    hothers

/-- One record that is no value, and nothing can be issued over it. -/
theorem Location.Stores.merkleLeaves_deep {location : Location}
    {record : RecordOut} (hstores : location.Stores P [record])
    (hseq : record.entry.seq < 2 ^ 64)
    (hdeep : 125 < record.entry.context.nesting) {ledger : Ledger}
    (hcount : ledger.nextSeq = 1) :
    ledger.merkleLeaves P location =
      .error (.serde (P.serdeMessage .unreadable)) := by
  have hnone : parseValue P (record.line P) = none := by
    rw [← Option.not_isSome_iff_eq_none, parseValue_line_isSome_iff P _ hseq,
      Entry.lineWithinLimit_iff]
    omega
  rcases hstores.holds with ⟨files, rfl, hfiles⟩
  unfold Ledger.merkleLeaves Ledger.readRecords
  simp [bind, Except.bind, hfiles, hcount, readWindow, hnone,
    line_not_blank P record]

end Reach

/-! ## Files and segments -/

section Handles

variable {P} {ring : List VerifyingKey} {records : List RecordOut}

/-- A file opens again under the key and the ring of the handle that left
it. -/
theorem exists_adoptHead {path : String} {ledger : Ledger}
    (hcounts : ledger.Counts P path (records.map (recordLine P))) :
    ∃ report, adoptHead P records (keyring P ledger.key ledger.verifiers)
      (P.verifyingKey ledger.key) = .ok report := by
  rcases hcounts.state with ⟨state, hstate, _, _, hsigners⟩
  rw [map_decodeLine_recordLine] at hstate
  have hring : keyring P ledger.key ledger.verifiers = ledger.verifiers :=
    if_pos hcounts.own
  have hlines := prefixLines_written (P := P) "" records
  have hjudged : judgeOpenHead P
      [⟨"", joined newline (records.map (recordLine P))⟩] ledger.verifiers
      (P.verifyingKey ledger.key) none =
        .ok (state.report ledger.verifiers, none) := by
    apply (judgeOpenHead_eq_ok_iff P).mpr
    rw [hlines]
    refine ⟨state, hstate, ?_, ?_, rfl, rfl⟩
    · intro bytes hnone
      cases hnone
    · rw [hsigners]
      exact hcounts.free
  unfold adoptHead
  rw [hring, hjudged]
  exact ⟨_, rfl⟩

variable {path : String} {world : World} {session : Session}

/-- The records of a live handle's file. -/
theorem World.Exports.live (hworld : world.Exports P 1 path ring)
    (hsession : world.session = some session)
    (hlive : session.ledger.failed = false) :
    ∃ records,
      world.file = some (joined newline (records.map (recordLine P))) ∧
      session.ledger.Counts P path (records.map (recordLine P)) ∧
      Exportable P 1 ring records session.ledger.lastHash ∧
      session.ledger.nextSeq = records.length := by
  rcases hworld.tracked session hsession with ⟨content, hfile, htracks⟩
  rcases hworld.records hsession with ⟨records, hlines, hnames, hwithin⟩
  rcases hworld.counted hsession hlines with ⟨hverified, hcount, _⟩
  refine ⟨records, ?_, ?_, ⟨hverified, hnames, hwithin⟩, hcount⟩
  · rw [hfile, htracks.live hlive, hlines]
  · rw [← hlines]
    exact htracks.counts

/-- What a ledger of such records can rely on, and what its contexts
decide. -/
theorem Location.Stores.reads {location : Location}
    (hstores : location.Stores P records) {head : String}
    (hexport : Exportable P 1 ring records head) (hring : ring ≠ [])
    {ledger : Ledger} (hcount : ledger.nextSeq = records.length)
    (hfits : ledger.nextSeq < UInt64.size) :
    ledger.Counted P location records ∧
      location.VerifiesUnder P ring ∧
      (ledger.EveryReads P ring location ↔
        ∀ record ∈ records, record.entry.context.nesting ≤ 125) := by
  rw [hcount] at hfits
  exact ⟨⟨hstores, hexport.inOrder hring hfits, hcount⟩,
    hstores.verifiesUnder hexport,
    hstores.everyReads_iff hexport hring hfits hcount⟩

theorem World.Exports.reads (hworld : world.Exports P 1 path ring)
    (hsession : world.session = some session)
    (hlive : session.ledger.failed = false)
    (hfits : session.ledger.nextSeq < UInt64.size) (target : Target) :
    ∃ records,
      session.ledger.Counted P (world.location path) records ∧
      (world.location path).VerifiesUnder P ring ∧
      (session.ledger.EveryReads P ring (world.location path) ↔
        ∀ record ∈ records, record.entry.context.nesting ≤ 125) ∧
      ∃ again, (openSingleInner P target none path world.file
        session.ledger.key session.ledger.verifiers none).2 = .ok again := by
  rcases hworld.live hsession hlive with
    ⟨records, hfile, hcounts, hexport, hcount⟩
  have hring := List.ne_nil_of_mem (hworld.keyed session hsession)
  have hstores := stores_written (P := P) path records world.session
  have hworldEq : world =
      { file := some (joined newline (records.map (recordLine P)))
        session := world.session } := by
    rw [← hfile]
  rw [← hworldEq] at hstores
  rcases hstores.reads hexport hring hcount hfits with
    ⟨hcounted, hverifies, hiff⟩
  refine ⟨records, hcounted, hverifies, hiff, ?_⟩
  rcases exists_adoptHead hcounts with ⟨report, hadopt⟩
  rw [hfile, openSingleInner_written, hadopt]
  exact ⟨_, rfl⟩

/-- Segments store the lines of the file they refine. -/
theorem Reflects.stores {state : SegmentState}
    (hrefines : Reflects P state world)
    (hfile : world.file =
      some (joined newline (records.map (recordLine P)))) :
    state.location.Stores P records := by
  have hbytes : ∀ kept : List RecordOut,
      some (joined newline (kept.map (recordLine P))) =
        some (joined newline (records.map (recordLine P))) →
      kept.map (recordLine P) = records.map (recordLine P) := by
    intro kept hsame
    have hcut := congrArg (LineText.cut newline) (Option.some.inj hsame)
    rw [LineText.cut_joined newline (newline_notMem_lines kept),
      LineText.cut_joined newline (newline_notMem_lines records)] at hcut
    exact congrArg Prod.fst hcut
  cases hrefines with
  | fresh => cases hfile
  | closed keeps => exact keeps.stores.of_same_lines (hbytes _ hfile)
  | opened serves same =>
      exact serves.keeps.stores.of_same_lines (hbytes _ hfile)

theorem Reflects.handle {state : SegmentState}
    (hrefines : Reflects P state world)
    (hsession : world.session = some session) :
    ∃ handle, state.handle = some handle ∧
      handle.ledger = session.ledger := by
  cases hrefines with
  | fresh => cases hsession
  | closed keeps => cases hsession
  | opened serves same =>
      cases hsession
      exact ⟨_, rfl, same.symm⟩

theorem Reflects.reads {state : SegmentState}
    (hrefines : Reflects P state world)
    (hworld : world.Exports P 1 path ring) {handle : SegmentedLedger}
    (hhandle : state.handle = some handle)
    (hfits : handle.ledger.nextSeq < UInt64.size) (policy : RolloverPolicy) :
    ∃ records,
      handle.ledger.Counted P state.location records ∧
      state.location.VerifiesUnder P ring ∧
      (handle.ledger.EveryReads P ring state.location ↔
        ∀ record ∈ records, record.entry.context.nesting ≤ 125) ∧
      ∃ again, (openSegmentedInner P none none state.directory
        handle.ledger.key handle.ledger.verifiers policy none).2 =
          .ok again := by
  have hstores : ∀ records : List RecordOut,
      world.file = some (joined newline (records.map (recordLine P))) →
      state.location.Stores P records := fun _ hfile => hrefines.stores hfile
  cases hrefines with
  | fresh => cases hhandle
  | closed keeps => cases hhandle
  | @opened dir handle session kept serves same =>
      cases hhandle
      have hring := List.ne_nil_of_mem (hworld.keyed session rfl)
      rcases hworld.live rfl (by rw [same]; exact serves.live) with
        ⟨records, hfile, hcounts, hexport, hcount⟩
      rw [same] at hcounts hcount
      rcases (hstores records hfile).reads hexport hring hcount hfits with
        ⟨hcounted, hverifies, hiff⟩
      refine ⟨records, hcounted, hverifies, hiff, ?_⟩
      rcases exists_adoptHead hcounts with ⟨report, hadopt⟩
      have hreopen := serves.keeps.reopen handle.ledger.key
        handle.ledger.verifiers policy
      unfold adoptHead at hreopen hadopt
      rw [Option.some.inj hfile, hadopt] at hreopen
      generalize openSegmentedInner P none none dir handle.ledger.key
        handle.ledger.verifiers policy none = result at hreopen ⊢
      rcases result with ⟨after, refused | again⟩
      · exact hreopen.elim
      · exact ⟨again, rfl⟩

end Handles

/-! ## Shards -/

structure Shard.VerifiesUnder (ring : List VerifyingKey) (shard : Shard) :
    Prop where
  report : ∃ report, verifyStoredRecords P shard.records ring = .ok report
  raw : ∀ offset limit, ∃ lines,
    ShardedLedger.readRawRecords P shard offset limit = .ok lines

variable {P} in
/-- Every reader of a shard succeeds, and an append through the history is
the one at the cursor. -/
structure ShardedLedger.EveryReads (ring : List VerifyingKey)
    (ledger : ShardedLedger P) (name : String) (shard : Shard) : Prop extends
    Shard.VerifiesUnder P ring shard where
  critical : ∃ existing, ledger.criticalSection name shard
    (fun records => .ok (none, records)) = (.ok (none, existing), shard)
  append : ∀ entry revise, ledger.appendAtHead name shard entry revise =
    some (ledger.appendThroughHistory name shard entry revise)
  records : ∀ offset limit, ∃ values,
    ledger.readRecords name shard offset limit = .ok values
  leaves : ∃ leaves, ShardedLedger.merkleLeaves (P := P) shard = .ok leaves
  treeHead : ∀ tsMs, ∃ head, ledger.treeHead shard tsMs = .ok head
  snapshot : ∀ tsMs, ∃ snapshot,
    ledger.evidenceSnapshot shard tsMs = .ok snapshot

section Shards

variable {P} {ring : List VerifyingKey} {shard : Shard}
  {records : List RecordOut}

theorem mapM_eq_some_iff {α β : Type} {read : α → Option β}
    {items : List α} {results : List β} :
    items.mapM read = some results ↔
      List.Forall₂ (fun item result => read item = some result) items
        results := by
  induction items generalizing results with
  | nil => simp [eq_comm]
  | cons item rest ih =>
      rw [List.mapM_cons, List.forall₂_cons_left_iff]
      simp only [Option.bind_eq_bind, Option.bind_eq_some_iff,
        Option.pure_def, Option.some.injEq, ih]
      constructor
      · rintro ⟨result, hresult, others, hothers, rfl⟩
        exact ⟨result, others, hresult, hothers, rfl⟩
      · rintro ⟨result, others, hresult, hothers, rfl⟩
        exact ⟨result, hresult, others, hothers, rfl⟩

theorem Shard.Exports.verifiesUnder
    (hexports : shard.Exports P 1 ring records) :
    shard.VerifiesUnder P ring where
  report := by
    rcases hexports.exportable.state with ⟨state, hstate, _⟩
    rw [← hexports.lines, Shard.lines, List.map_map] at hstate
    unfold verifyStoredRecords
    have hlines : shard.records.map (fun record =>
        (Except.ok record.recordJson : Except LedgerError String)) =
          shard.records.map (Except.ok ∘ StoredRecord.recordJson) := rfl
    rw [hlines, verifyLines_of_verifyState P hstate]
    exact ⟨_, rfl⟩
  raw := by
    intro offset limit
    refine mapM_eq_ok fun stored hstored => ?_
    have hline : stored.recordJson ∈ shard.lines :=
      List.mem_map_of_mem (List.mem_of_mem_drop (List.mem_of_mem_take hstored))
    rw [hexports.lines] at hline
    rcases List.mem_map.mp hline with ⟨record, _, hrecord⟩
    rw [← hrecord, parseRaw_line]
    exact ⟨_, rfl⟩

/-- A shard whose lines are values is read by every reader. -/
theorem Shard.Exports.everyReads (hexports : shard.Exports P 1 ring records)
    (hring : ring ≠ []) (hfits : shard.nextSeq < UInt64.size)
    {values : List Value} (hvalues : ValuesOf P records values)
    (ledger : ShardedLedger P) (name : String) :
    ledger.EveryReads ring name shard := by
  have hparsed : shard.lines.mapM (parseValue P) = some values := by
    rw [hexports.lines]
    exact mapM_eq_some_iff.mpr (List.forall₂_map_left_iff.mpr hvalues)
  have hcritical : ledger.criticalSection name shard
      (fun existing => .ok (none, existing)) = (.ok (none, values), shard) := by
    unfold ShardedLedger.criticalSection
    rw [hparsed]
  rw [hexports.count] at hfits
  rcases hexports.exportable.leaves hring hfits with ⟨leaves, hleaves⟩
  have hstored : ShardedLedger.leavesOfStored P shard.records = .ok leaves :=
    ShardedLedger.leavesOfStored_written P hexports.lines hvalues hleaves
  refine
    { hexports.verifiesUnder with
      critical := ⟨values, hcritical⟩
      append := fun entry revise => ?_
      records := fun offset limit => ?_
      leaves := ⟨leaves, hstored⟩
      treeHead := fun tsMs => ?_
      snapshot := fun tsMs => ?_ }
  · rcases Option.isSome_iff_exists.mp hexports.current with ⟨spans, hspans⟩
    rcases hexports.kept with ⟨keys, state, hkept⟩
    have hhistory := hkept.spansOf hparsed
      (hexports.namesSigner ledger.verifiers)
    rw [ShardedLedger.appendThroughHistory_eq, hparsed,
      ShardedLedger.appendAtHead, hspans, hkept.spans spans hspans]
    simp only [hhistory, Option.map_some]
  · unfold ShardedLedger.readRecords
    rw [hcritical]
    exact ⟨_, rfl⟩
  · unfold ShardedLedger.treeHead ShardedLedger.merkleLeaves
    rw [hstored]
    exact ⟨_, rfl⟩
  · unfold ShardedLedger.evidenceSnapshot
    rw [hstored]
    exact ⟨_, rfl⟩

/-- A section that hands out the records read every line. -/
theorem Shard.Exports.everyReads_iff
    (hexports : shard.Exports P 1 ring records) (hring : ring ≠ [])
    (hfits : shard.nextSeq < UInt64.size) (ledger : ShardedLedger P)
    (name : String) :
    ledger.EveryReads ring name shard ↔
      ∀ record ∈ records, record.entry.context.nesting ≤ 125 := by
  have hword : records.length < UInt64.size := by
    rw [← hexports.count]
    exact hfits
  rw [← exists_valuesOf_iff (hexports.exportable.seq_lt le_rfl hring hword)]
  constructor
  · intro hreads
    rcases hreads.critical with ⟨existing, hcritical⟩
    unfold ShardedLedger.criticalSection at hcritical
    rw [hexports.lines] at hcritical
    cases hparsed : (records.map (RecordOut.line P)).mapM (parseValue P) with
    | none =>
        rw [hparsed] at hcritical
        cases hcritical
    | some values =>
        exact ⟨values,
          List.forall₂_map_left_iff.mp (mapM_eq_some_iff.mp hparsed)⟩
  · rintro ⟨values, hvalues⟩
    exact hexports.everyReads hring hfits hvalues ledger name

end Shards

/-! ## What a request can leave -/

/-- A request to read whose `consent` is arrays within arrays. -/
def consentText (depth : ℕ) : List Char :=
  ("\x7b\"subject\":\x7b\"type\":\"Principal\",\"id\":\"bot\"\x7d," ++
    "\"action\":\x7b\"name\":\"Read\"\x7d," ++
    "\"resource\":\x7b\"type\":\"Resource\",\"id\":\"acct\"\x7d," ++
    "\"context\":\x7b\"consent\":").toList ++
    List.replicate depth '[' ++ List.replicate depth ']' ++ ['}', '}']

def consentBody (depth : ℕ) : String := String.ofList (consentText depth)

/-- What the sample server records of it. -/
def consentEntry (depth : ℕ) : Option Entry :=
  (Kernel.new (declaredEngine sampleFloats) sampleModel).toOption.bind
    fun kernel => (JsonText.parse (consentText depth)).bind
      fun doc => (readDecideReq (docSource sampleFloats) doc).toOption.bind
        fun req => (evaluateOne (Decide.sampleHost kernel) none
            req).toOption.bind
          fun evaluated =>
            (settle (fun _ => .ok none) evaluated.entry).toOption

/-- Where no callers are told apart, everyone is admitted. -/
theorem admitReq_none (req : DecideReq) : admitReq none req = none := by
  have hnamed : ∀ named, refuseUnlessAdmits none named = none := fun _ => rfl
  unfold admitReq admitNamed refuseDescriptionUnlessPep refuseUnlessPep
  cases req.facts.subjectId <;> cases req.facts.decisionSubject <;>
    simp [hnamed]

theorem exists_of_consentEntry {depth : ℕ} {entry : Entry}
    (hentry : consentEntry depth = some entry) :
    ∃ kernel req evaluated,
      parseDecideReq sampleFloats (consentBody depth) = .ok req ∧
      admitReq none req = none ∧
      evaluateOne (Decide.sampleHost kernel) none req = .ok evaluated ∧
      settle (fun _ => .ok none) evaluated.entry = .ok entry := by
  rcases Option.bind_eq_some_iff.mp hentry with ⟨kernel, _, hentry⟩
  rcases Option.bind_eq_some_iff.mp hentry with ⟨doc, hdoc, hentry⟩
  rcases Option.bind_eq_some_iff.mp hentry with ⟨req, hreq, hentry⟩
  rcases Option.bind_eq_some_iff.mp hentry with
    ⟨evaluated, hevaluated, hsettled⟩
  refine ⟨kernel, req, evaluated, ?_, admitReq_none req,
    toOption_eq_some.mp hevaluated, toOption_eq_some.mp hsettled⟩
  have hbody : JsonText.parse (consentBody depth).toList = some doc := by
    rw [consentBody, String.toList_ofList]
    exact hdoc
  rw [Decide.parseDecideReq_of_parse hbody]
  exact toOption_eq_some.mp hreq

theorem Entry.decides_of_consentEntry {depth : ℕ} {entry : Entry}
    (hentry : consentEntry depth = some entry) :
    entry.Decides samplePlatform := by
  rcases exists_of_consentEntry hentry with
    ⟨kernel, req, evaluated, hparse, hadmits, hevaluated, hsettled⟩
  exact ⟨_, _, _, _, Decide.sampleHost kernel, none, req, evaluated, _, entry,
    entry.seq, .alone hparse hadmits, hevaluated, hsettled, rfl⟩

/-! ## The law -/

/-- Ledgers of what requests decided, under a ring with the keys used: every
record is verified and the ledger opens again, and every reader reads it
exactly when no record has a context deeper than 125. -/
theorem recorded_reads_iff (ring : List VerifyingKey) :
    (∀ target path operations session,
      StateRun.Admitted (World.step P target path)
        (Operation.AppendsTo P (Entry.Decides P) target path ring)
        { file := none, session := none } operations →
      (World.after P target path none operations).session = some session →
      session.ledger.failed = false →
      session.ledger.nextSeq < UInt64.size →
      ∃ records,
        session.ledger.Counted P
          ((World.after P target path none operations).location path)
          records ∧
        ((World.after P target path none operations).location
          path).VerifiesUnder P ring ∧
        (session.ledger.EveryReads P ring
            ((World.after P target path none operations).location path) ↔
          ∀ record ∈ records, record.entry.context.nesting ≤ 125) ∧
        ∃ again, (openSingleInner P target none path
          (World.after P target path none operations).file
          session.ledger.key session.ledger.verifiers none).2 = .ok again) ∧
    (∀ calls handle policy,
      StateRun.Admitted (SegmentState.next P)
        (fun state request =>
          LedgerCall.AppendsTo P (Entry.Decides P) ring state request)
        .start calls →
      (SegmentState.after P calls).handle = some handle →
      handle.ledger.nextSeq < UInt64.size →
      ∃ records,
        handle.ledger.Counted P (SegmentState.after P calls).location
          records ∧
        (SegmentState.after P calls).location.VerifiesUnder P ring ∧
        (handle.ledger.EveryReads P ring
            (SegmentState.after P calls).location ↔
          ∀ record ∈ records, record.entry.context.nesting ≤ 125) ∧
        ∃ again, (openSegmentedInner P none none
          (SegmentState.after P calls).directory handle.ledger.key
          handle.ledger.verifiers policy none).2 = .ok again) ∧
    ∀ name (sections : List (ShardSection P)) (ledger : ShardedLedger P),
      ring ≠ [] →
      StateRun.Admitted (ShardSection.next name)
        (fun shard visit => visit.AppendsTo (Entry.Decides P) name ring shard)
        {} sections →
      (StateRun.run (ShardSection.next name) {} sections).nextSeq <
        UInt64.size →
      ∃ records,
        (StateRun.run (ShardSection.next name) {} sections).Counted P
          records ∧
        (StateRun.run (ShardSection.next name) {} sections).VerifiesUnder P
          ring ∧
        (ledger.EveryReads ring name
            (StateRun.run (ShardSection.next name) {} sections) ↔
          ∀ record ∈ records, record.entry.context.nesting ≤ 125) := by
  have hwithin : ∀ entry : Entry, entry.Decides P → entry.ReadsUnder 1 :=
    fun _ hentry => hentry.withinLimit
  refine ⟨?_, ?_, ?_⟩
  · intro target path operations session hoperations hsession hlive hfits
    have hworld := after_exports P le_rfl hwithin hoperations
    exact hworld.reads hsession hlive hfits target
  · intro calls handle policy hcalls hhandle hfits
    have hfollowed : ∃ operations,
        StateRun.Admitted (World.step P .unix "ledger")
            (Operation.AppendsTo P (Entry.Decides P) .unix "ledger" ring)
            { file := none, session := none } operations ∧
          Reflects P (SegmentState.after P calls)
            (World.after P .unix "ledger" none operations) :=
      run_followed .fresh hcalls
    rcases hfollowed with ⟨operations, hoperations, hrefines⟩
    have hworld := after_exports P le_rfl hwithin hoperations
    exact hrefines.reads hworld hhandle hfits policy
  · intro name sections ledger hring hsections hfits
    rcases Shard.Exports.empty.run le_rfl hwithin hsections with
      ⟨records, hexports⟩
    rw [List.nil_append] at hexports
    have hcount := hexports.count
    have hword := hfits
    rw [hcount] at hword
    exact ⟨records, ⟨hexports.lines,
        hexports.exportable.inOrder hring hword, hcount⟩,
      hexports.verifiesUnder,
      hexports.everyReads_iff hring hfits ledger name⟩

/-- A ledger of one recorded request. -/
def consentLog (entry : Entry) : List Operation :=
  [.open (sampleKey 1) [] none none, .append entry none]

def consentWorld (entry : Entry) : World :=
  World.after samplePlatform .unix "ledger" none (consentLog entry)

/-- The handle both kinds of ledger are started with. -/
def consentLedger : Ledger :=
  Ledger.opened (sampleKey 1) [sampleKey 1] none 0 []

def consentRecord (entry : Entry) : RecordOut :=
  consentLedger.sealNext samplePlatform entry

theorem consentWorld_eq (entry : Entry) :
    consentWorld entry =
      { file := some (joined newline
          ([consentRecord entry].map (recordLine samplePlatform)))
        session := some
          { ledger := consentLedger.advance samplePlatform entry
            lines := [recordLine samplePlatform (consentRecord entry)] } } := by
  have hopen := after_open_none samplePlatform .unix "ledger" (sampleKey 1)
  have hring : keyring samplePlatform (sampleKey 1) [] = [sampleKey 1] := rfl
  rw [hring, ← consentLedger] at hopen
  have hlive : consentLedger.failed = false := rfl
  rw [consentWorld, consentLog, ← List.singleton_append, World.after,
    StateRun.run_append, ← World.after, hopen, StateRun.run_cons,
    StateRun.run_nil]
  unfold World.step
  simp only
  rw [Ledger.append_none _ _ _ _ hlive]
  simp [Session.appended, consentRecord]

/-- Segments of one recorded request. -/
def consentCalls (entry : Entry) : List LedgerCall :=
  [.reopen (sampleKey 1) [] { maxBytes := none, epochMs := none },
    .append entry]

theorem consentCalls_noIoFailure {entry : Entry} (hts : entry.tsMs = 100000) :
    StateRun.Admitted (SegmentState.next samplePlatform)
      (SegmentState.NoIoFailure samplePlatform) .start
      (consentCalls entry) := by
  cases entry
  cases hts
  exact ⟨SegmentState.noIoFailure_of_ok samplePlatform rfl,
    SegmentState.noIoFailure_of_ok samplePlatform rfl, trivial⟩

theorem reflects_consentWorld {entry : Entry} (hts : entry.tsMs = 100000) :
    Reflects samplePlatform
      (SegmentState.after samplePlatform (consentCalls entry))
      (consentWorld entry) := by
  have hrefines := (run_refines .unix "ledger" (.fresh : Reflects _ _ _)
    (consentCalls_noIoFailure hts)).1
  have hclosed : World.step samplePlatform .unix "ledger"
      { file := none, session := none } .close =
        { file := none, session := none } := rfl
  have hoperations : (consentCalls entry).flatMap LedgerCall.operations =
      .close :: consentLog entry := rfl
  rw [hoperations, StateRun.run_cons, hclosed] at hrefines
  exact hrefines

theorem consentLog_appends {entry : Entry}
    (hentry : entry.Decides samplePlatform) :
    StateRun.Admitted (World.step samplePlatform .unix "ledger")
      (Operation.AppendsTo samplePlatform (Entry.Decides samplePlatform) .unix
        "ledger" [sampleKey 1])
      { file := none, session := none } (consentLog entry) := by
  refine ⟨⟨trivial, ?_⟩, ⟨hentry, ?_⟩, trivial⟩
  · rintro session ⟨⟩
    exact List.mem_singleton.mpr rfl
  · intro session hsession
    have hworld : (consentWorld entry).session = some session := hsession
    rw [consentWorld_eq] at hworld
    cases hworld
    exact List.mem_singleton.mpr rfl

theorem consentCalls_append {entry : Entry}
    (hentry : entry.Decides samplePlatform) (hts : entry.tsMs = 100000) :
    StateRun.Admitted (SegmentState.next samplePlatform)
      (fun state request => LedgerCall.AppendsTo samplePlatform
        (Entry.Decides samplePlatform) [sampleKey 1] state request) .start
      (consentCalls entry) := by
  refine ⟨⟨trivial, ?_⟩, ⟨hentry, ?_⟩, trivial⟩
  · rintro handle ⟨⟩
    exact List.mem_singleton.mpr rfl
  · intro handle hhandle
    have hafter : (SegmentState.after samplePlatform
      (consentCalls entry)).handle = some handle := hhandle
    rcases (reflects_consentWorld hts).handle
      (congrArg World.session (consentWorld_eq entry)) with
      ⟨other, hother, hledger⟩
    rw [hafter] at hother
    cases hother
    rw [hledger]
    exact List.mem_singleton.mpr rfl

/-- A process that appends one recorded request to a shard. -/
def consentSection (entry : Entry) : ShardSection samplePlatform :=
  .atHead (.new samplePlatform (sampleKey 1) []) entry .ok

theorem consentSection_appends {entry : Entry}
    (hentry : entry.Decides samplePlatform) :
    StateRun.Admitted (ShardSection.next "shard")
      (fun shard visit => visit.AppendsTo (Entry.Decides samplePlatform)
        "shard" [sampleKey 1] shard) {} [consentSection entry] := by
  refine ⟨?_, trivial⟩
  rintro record ⟨⟩
  exact ⟨hentry.withSeq 0, List.mem_singleton.mpr rfl⟩

theorem consentEntry_deep :
    (consentEntry 125).map (fun entry => entry.context.nesting) =
      some 126 := by
  decide +kernel

theorem consentEntry_flat :
    (consentEntry 1).map (fun entry =>
      (entry.context.nesting, entry.tsMs)) = some (2, 100000) := by
  decide +kernel

/-- A request that is parsed, admitted and recorded leaves a ledger that
verifies, and of which no tree head and no bundle can be issued. -/
theorem not_recorded_reads :
    ∃ (entry : Entry) (session : Session),
      consentEntry 125 = some entry ∧ entry.Decides samplePlatform ∧
      (consentWorld entry).session = some session ∧
      session.ledger.failed = false ∧
      ((consentWorld entry).location "ledger").VerifiesUnder samplePlatform
        [sampleKey 1] ∧
      (∀ tsMs, session.ledger.treeHead samplePlatform
        ((consentWorld entry).location "ledger") tsMs =
          .error (.serde "unreadable")) ∧
      (∀ tsMs, ∃ error, session.ledger.snapshotForBundle samplePlatform
        ((consentWorld entry).location "ledger") tsMs = .error error) ∧
      ¬session.ledger.EveryReads samplePlatform [sampleKey 1]
        ((consentWorld entry).location "ledger") := by
  rcases Option.map_eq_some_iff.mp consentEntry_deep with
    ⟨entry, hentry, hnesting⟩
  have hdecides := Entry.decides_of_consentEntry hentry
  have hsession := congrArg World.session (consentWorld_eq entry)
  have hworld : (consentWorld entry).Exports samplePlatform 1 "ledger"
      [sampleKey 1] :=
    after_exports samplePlatform le_rfl
      (fun _ hother => Entry.Decides.withinLimit hother)
      (consentLog_appends hdecides)
  rcases hworld.reads hsession rfl (show 1 < UInt64.size by decide) .unix with
    ⟨_, _, hverifies, _⟩
  have hstores : ((consentWorld entry).location "ledger").Stores
      samplePlatform [consentRecord entry] := by
    rw [consentWorld_eq]
    exact stores_written "ledger" _ _
  have hleaves := hstores.merkleLeaves_deep (show 0 < 2 ^ 64 by decide)
    (show 125 < entry.context.nesting by omega)
    (show (consentLedger.advance samplePlatform entry).nextSeq = 1 from rfl)
  have hhead : ∀ tsMs, (consentLedger.advance samplePlatform
      entry).treeHead samplePlatform ((consentWorld entry).location "ledger")
        tsMs = .error (.serde "unreadable") := by
    intro tsMs
    unfold Ledger.treeHead
    rw [hleaves]
    rfl
  refine ⟨entry, _, hentry, hdecides, hsession, rfl, hverifies, hhead, ?_, ?_⟩
  · intro tsMs
    unfold Ledger.snapshotForBundle
    rw [hstores.holds.readRawRecords 0 _ (Or.inl rfl), hleaves]
    exact ⟨_, rfl⟩
  · intro hreads
    rcases hreads.treeHead 0 with ⟨head, hok⟩
    rw [hhead 0] at hok
    cases hok

theorem recorded_reads_iff_sample :
    ∃ (entry : Entry) (session : Session) (handle : SegmentedLedger),
      consentEntry 1 = some entry ∧
      (consentWorld entry).session = some session ∧
      session.ledger.nextSeq = 1 ∧
      session.ledger.EveryReads samplePlatform [sampleKey 1]
        ((consentWorld entry).location "ledger") ∧
      (SegmentState.after samplePlatform (consentCalls entry)).handle =
        some handle ∧
      handle.ledger.EveryReads samplePlatform [sampleKey 1]
        (SegmentState.after samplePlatform (consentCalls entry)).location ∧
      (ShardedLedger.new samplePlatform (sampleKey 1) []).EveryReads
        [sampleKey 1] "shard"
        (StateRun.run (ShardSection.next "shard") {}
          [consentSection entry]) := by
  rcases Option.map_eq_some_iff.mp consentEntry_flat with
    ⟨entry, hentry, hfacts⟩
  rcases Prod.mk.inj hfacts with ⟨hnesting, hts⟩
  have hdecides := Entry.decides_of_consentEntry hentry
  have hfits : 1 < UInt64.size := by decide
  have hone : ∀ other ∈ [consentRecord entry],
      other.entry.seq < 2 ^ 64 ∧ other.entry.context.nesting ≤ 125 := by
    intro other hother
    rw [List.mem_singleton.mp hother]
    exact ⟨show 0 < 2 ^ 64 by decide,
      show entry.context.nesting ≤ 125 by omega⟩
  have hsession := congrArg World.session (consentWorld_eq entry)
  have hfile := congrArg World.file (consentWorld_eq entry)
  have hrefines := reflects_consentWorld hts
  rcases hrefines.handle hsession with ⟨handle, hhandle, hledger⟩
  have hcount : handle.ledger.nextSeq = 1 := by
    rw [hledger]
    rfl
  rcases recorded_reads_iff samplePlatform [sampleKey 1] with
    ⟨hsingle, hsegmented, hsharded⟩
  refine ⟨entry, _, handle, hentry, hsession, rfl, ?_, hhandle, ?_, ?_⟩
  · rcases hsingle .unix "ledger" (consentLog entry) _
      (consentLog_appends hdecides) hsession rfl hfits with
      ⟨records, hcounted, _, hiff, _⟩
    have hstores : ((consentWorld entry).location "ledger").Stores
        samplePlatform [consentRecord entry] := by
      rw [consentWorld_eq]
      exact stores_written "ledger" _ _
    exact hiff.mpr (hcounted.shallow hfits hstores hone)
  · rcases hsegmented (consentCalls entry) handle ⟨none, none⟩
      (consentCalls_append hdecides hts) hhandle (by omega) with
      ⟨records, hcounted, _, hiff, _⟩
    exact hiff.mpr (hcounted.shallow (by omega) (hrefines.stores hfile) hone)
  · rcases hsharded "shard" [consentSection entry]
      (.new samplePlatform (sampleKey 1) []) (by simp)
      (consentSection_appends hdecides) hfits with
      ⟨records, hcounted, _, hiff⟩
    have hlines : records.map (RecordOut.line samplePlatform) =
        [consentRecord entry].map (RecordOut.line samplePlatform) :=
      hcounted.lines.symm.trans rfl
    have hlength : records.length < UInt64.size := by
      rw [← hcounted.counted]
      exact hfits
    exact hiff.mpr (hcounted.inOrder.shallow hlength hlines hone)

end Decern
