import Decern.EvidenceRuns
import Decern.SegmentRuns
import Mathlib.Tactic

/-!
# The segmented ledger refines the single file

Without a failing file operation a segmented ledger keeps the head and the
bytes of a single file under the same calls: a rollover moves the last lines
behind a boundary, at the sequence number the next record gets.  A reopen
reads the same texts from the segments as from the file, so it judges and
adopts the same head.
-/

namespace Decern

open ByteText (Bytes newline)
open LineText (cut joined terminatedPrefix)

variable (P : Platform)

/-! ## Calls -/

/-- What an owner of a ledger calls on it. -/
inductive LedgerCall where
  | reopen (key : SigningKey) (retired : List VerifyingKey)
      (policy : RolloverPolicy)
  | append (entry : Entry)
  | appendAll (entries : List Entry)
  | rotate (newKey : SigningKey)

/-- The calls on a single file, which has no policy. -/
def LedgerCall.operations : LedgerCall → List Operation
  | .reopen key retired _ => [.close, .open key retired none none]
  | .append entry => [.append entry none]
  | .appendAll entries =>
      [.appendAll (entries.map fun entry => (entry, none)) none]
  | .rotate newKey => [.rotate newKey]

namespace SegmentedLedger

/-- The loop of `append_all` over segments. -/
def appendEach (dir : Directory) (handle : SegmentedLedger) :
    List Entry → Directory × SegmentedLedger × Except LedgerError Unit
  | [] => (dir, handle, .ok ())
  | entry :: rest =>
      match handle.append P none none dir entry with
      | (dir, handle, .error error) => (dir, handle, .error error)
      | (dir, handle, .ok _) => appendEach dir handle rest

def setSync (handle : SegmentedLedger) (sync : Bool) : SegmentedLedger :=
  { handle with ledger := { handle.ledger with sync := sync } }

def appendAll (dir : Directory) (handle : SegmentedLedger)
    (entries : List Entry) :
    Directory × SegmentedLedger × Except LedgerError Unit :=
  match (handle.setSync false).appendEach P dir entries with
  | (dir, last, outcome) => (dir, last.setSync handle.ledger.sync, outcome)

end SegmentedLedger

/-- A segment directory and the handle on it. -/
structure SegmentState where
  directory : Directory
  handle : Option SegmentedLedger

namespace SegmentState

/-- A directory that does not exist yet. -/
def start : SegmentState where
  directory := { manifest := none, files := [] }
  handle := none

/-- One call and its answer, no file operation failing. -/
def call (state : SegmentState) (request : LedgerCall) :
    SegmentState × Except LedgerError Unit :=
  match request, state.handle with
  | .reopen key retired policy, _ =>
      match openSegmentedInner P none none state.directory key retired policy
          none with
      | (directory, .error error) =>
          ({ directory, handle := none }, .error error)
      | (directory, .ok handle) =>
          ({ directory, handle := some handle }, .ok ())
  | .append entry, some handle =>
      match handle.append P none none state.directory entry with
      | (directory, handle, answer) =>
          ({ directory, handle := some handle }, answer.map fun _ => ())
  | .appendAll entries, some handle =>
      match handle.appendAll P state.directory entries with
      | (directory, handle, answer) =>
          ({ directory, handle := some handle }, answer)
  | .rotate newKey, some handle =>
      match handle.ledger.rotate P newKey with
      | (ledger, answer) =>
          ({ state with handle := some { handle with ledger } }, answer)
  | _, none => (state, .ok ())

def next (state : SegmentState) (request : LedgerCall) : SegmentState :=
  (state.call P request).1

/-- The call is not answered by an I/O error. -/
def NoIoFailure (state : SegmentState) (request : LedgerCall) : Prop :=
  ∀ path err, (state.call P request).2 ≠ .error (.io path err)

end SegmentState

/-! ## What the segments hold -/

def Directory.segments (dir : Directory) : List SegmentMeta :=
  (dir.manifest.map Manifest.segments).getD []

def Directory.names (dir : Directory) : List String :=
  dir.segments.map SegmentMeta.file

/-- The segment files one after the other, in manifest order. -/
def Directory.stored (dir : Directory) : Bytes :=
  dir.segments.flatMap fun segment => (dir.read segment.file).getD []

/-- A file of the records numbered from `start` up to `stop`, at least
one. -/
def HoldsRange (content : Bytes) (start stop : ℕ) : Prop :=
  start < stop ∧ ∃ records : List RecordOut,
    content = joined newline (records.map (recordLine P)) ∧
    records.map (fun record => record.entry.seq) =
      List.range' start (stop - start)

/-- Segments that follow one another from `start`; only the last is not
sealed. -/
def Partitions (dir : Directory) : ℕ → List SegmentMeta → Prop
  | _, [] => True
  | start, segment :: rest =>
      segment.startSeq = start ∧
        match segment.endSeq with
        | some stop =>
            HoldsRange P ((dir.read segment.file).getD []) start stop ∧
              Partitions dir stop rest
        | none => rest = []

/-- Sealed segments and their lines, numbered from `start` to `last`. -/
inductive Ranged : ℕ → List SegmentMeta → List SealedFile → ℕ → Prop where
  | nil (start : ℕ) : Ranged start [] [] start
  | cons {segment : SegmentMeta} {block : SealedFile}
      {records : List RecordOut} {start stop last : ℕ}
      {done : List SegmentMeta} {blocks : List SealedFile}
      (starts : segment.startSeq = start) (ends : segment.endSeq = some stop)
      (nonempty : start < stop)
      (lines : block.lines = records.map (recordLine P))
      (numbers : records.map (fun record => record.entry.seq) =
        List.range' start (stop - start))
      (rest : Ranged stop done blocks last) :
      Ranged start (segment :: done) (block :: blocks) last

namespace Ranged

variable {P} {start last stop : ℕ} {done : List SegmentMeta}
  {blocks : List SealedFile}

theorem snoc {segment : SegmentMeta} {block : SealedFile}
    {records : List RecordOut} (hranged : Ranged P start done blocks last)
    (hstart : segment.startSeq = last) (hstop : segment.endSeq = some stop)
    (hlt : last < stop) (hlines : block.lines = records.map (recordLine P))
    (hnumbers : records.map (fun record => record.entry.seq) =
      List.range' last (stop - last)) :
    Ranged P start (done ++ [segment]) (blocks ++ [block]) stop := by
  induction hranged with
  | nil first => exact .cons hstart hstop hlt hlines hnumbers (.nil _)
  | cons starts ends nonempty lines numbers rest ih =>
      exact .cons starts ends nonempty lines numbers
        (ih hstart hlt hnumbers)

/-- All their lines are those of records, one for each number. -/
theorem records (hranged : Ranged P start done blocks last) :
    ∃ records : List RecordOut,
      sealedLines blocks = records.map (recordLine P) ∧
      records.map (fun record => record.entry.seq) =
        List.range' start (last - start) ∧ start ≤ last := by
  induction hranged with
  | nil first => exact ⟨[], rfl, by simp, le_refl _⟩
  | @cons segment block records start stop last done blocks starts ends
      nonempty lines numbers rest ih =>
      obtain ⟨others, hlines, hnumbers, hle⟩ := ih
      have hsplit : last - start = (stop - start) + (last - stop) := by omega
      have hstop : stop = start + (stop - start) := by omega
      refine ⟨records ++ others, ?_, ?_, by omega⟩
      · rw [List.map_append, ← lines, ← hlines]
        rfl
      · rw [List.map_append, numbers, hnumbers, hsplit,
          ← List.range'_append_1, ← hstop]

end Ranged

/-- A directory as a writer leaves it, every segment with its own range. -/
structure Divided (dir : Directory) (manifest : Manifest)
    (done : List SegmentMeta) (active : SegmentMeta)
    (blocks : List SealedFile) (current : List RecordOut) : Prop where
  layout : Layout dir manifest done active blocks
    (joined newline (current.map (recordLine P)))
  ranged : Ranged P 0 done blocks active.startSeq
  numbers : current.map (fun record => record.entry.seq) =
    List.range' active.startSeq current.length

section Directories

variable {P} {dir : Directory} {manifest : Manifest}
  {done : List SegmentMeta} {active : SegmentMeta} {blocks : List SealedFile}
  {current : List RecordOut}

theorem Directory.segments_of_manifest (hmanifest : dir.manifest = some manifest) :
    dir.segments = manifest.segments := by
  rw [Directory.segments, hmanifest]
  rfl

theorem Divided.segments
    (hstored : Divided P dir manifest done active blocks current) :
    dir.segments = done ++ [active] := by
  rw [Directory.segments_of_manifest hstored.layout.saved]
  exact hstored.layout.segments

theorem Divided.bytes
    (hstored : Divided P dir manifest done active blocks current) :
    dir.stored = joined newline
      (sealedLines blocks ++ current.map (recordLine P)) := by
  have hholds := hstored.layout.holds
  rw [Directory.stored, hstored.segments, List.flatMap_append,
    List.flatMap_singleton, hholds.current, Option.getD_some,
    LineText.joined_append]
  congr 1
  have hpaths := hholds.paths
  have hread := hholds.stored
  clear hholds hstored
  induction blocks generalizing done with
  | nil =>
      rw [List.map_nil, eq_comm, List.map_eq_nil_iff] at hpaths
      rw [hpaths]
      rfl
  | cons block rest ih =>
      cases done with
      | nil => simp at hpaths
      | cons segment others =>
          simp only [List.map_cons, List.cons.injEq] at hpaths
          have hrest := ih hpaths.2 fun other hother =>
            hread other (by simp [hother])
          have hblock := hread block (by simp)
          rw [hpaths.1] at hblock
          rw [List.flatMap_cons, hrest, hblock, Option.getD_some]
          exact (LineText.joined_append newline _ _).symm

theorem Ranged.partitions {start last : ℕ}
    (hranged : Ranged P start done blocks last)
    (hpaths : blocks.map SealedFile.path = done.map SegmentMeta.file)
    (hread : ∀ block ∈ blocks,
      dir.read block.path = some (joined newline block.lines))
    (hstart : active.startSeq = last) (hunsealed : active.endSeq = none) :
    Partitions P dir start (done ++ [active]) := by
  induction hranged with
  | nil first => exact ⟨hstart, by rw [hunsealed]⟩
  | cons starts ends nonempty lines numbers rest ih =>
      simp only [List.map_cons, List.cons.injEq] at hpaths
      have hblock := hread _ List.mem_cons_self
      rw [hpaths.1] at hblock
      refine ⟨starts, ?_⟩
      rw [ends, hblock, Option.getD_some]
      refine ⟨⟨nonempty, _, by rw [lines], numbers⟩, ?_⟩
      exact ih hpaths.2 (fun other hother =>
        hread other (List.mem_cons_of_mem _ hother)) hstart

theorem Divided.partitions
    (hstored : Divided P dir manifest done active blocks current) :
    Partitions P dir 0 dir.segments := by
  rw [hstored.segments]
  have hholds := hstored.layout.holds
  exact hstored.ranged.partitions hholds.paths hholds.stored rfl
    hstored.layout.shape.unsealed

theorem Divided.nodup
    (hstored : Divided P dir manifest done active blocks current) :
    dir.names.Nodup := by
  rw [Directory.names, hstored.segments]
  exact hstored.layout.shape.distinct

theorem Divided.load
    (hstored : Divided P dir manifest done active blocks current) :
    loadManifest none dir = .ok dir.manifest := by
  rw [hstored.layout.saved]
  exact hstored.layout.shape.load hstored.layout.saved
    hstored.layout.segments

end Directories

/-! ## Appends -/

/-- The records of a stored directory, in order. -/
def Keeps (dir : Directory) (records : List RecordOut) : Prop :=
  ∃ manifest done active blocks current,
    Divided P dir manifest done active blocks current ∧
    records.map (recordLine P) =
      sealedLines blocks ++ current.map (recordLine P)

/-- A live handle on a stored directory, and all its records. -/
structure Serves (dir : Directory) (handle : SegmentedLedger)
    (records : List RecordOut) : Prop where
  live : handle.ledger.failed = false
  counts : handle.ledger.nextSeq = records.length
  stored : ∃ manifest done active blocks current,
    Divided P dir manifest done active blocks current ∧
    handle.manifest = manifest ∧ handle.activeFile = active.file ∧
    records.map (recordLine P) =
      sealedLines blocks ++ current.map (recordLine P)

/-- What a step on a directory leaves: a handle with that head over those
records, every segment still under its name. -/
structure Follows (dir after : Directory) (next : SegmentedLedger)
    (ledger : Ledger) (records : List RecordOut) : Prop where
  serves : Serves P after next records
  same : next.ledger = ledger
  names : dir.names <+: after.names

section Appends

variable {P} {dir : Directory} {handle : SegmentedLedger}
  {records : List RecordOut}

/-- The handle counts the records before its active segment, and those in
it. -/
theorem Divided.length {manifest : Manifest} {done : List SegmentMeta}
    {active : SegmentMeta} {blocks : List SealedFile}
    {current : List RecordOut}
    (hstored : Divided P dir manifest done active blocks current)
    (hlines : records.map (recordLine P) =
      sealedLines blocks ++ current.map (recordLine P)) :
    records.length = active.startSeq + current.length := by
  obtain ⟨before, hbefore, hnumbers, _⟩ := hstored.ranged.records
  have hlength := congrArg List.length hlines
  have hcount := congrArg List.length hnumbers
  rw [hbefore] at hlength
  simp only [List.length_map, List.length_append, List.length_range']
    at hlength hcount
  omega

/-- Without a fault a rollover is out of names, or its commit goes
through. -/
theorem rollOverSegments_none (dir : Directory) (manifest : Manifest)
    (currentSeq : ℕ) (nextTsMs : UInt64) {active : SegmentMeta}
    (hactive : manifest.active = some active) :
    (∃ path err, rollOverSegments none dir manifest currentSeq nextTsMs =
      (dir, .error { landed := false, err := .io path err })) ∨
    ∃ file index, validateSegmentFilename file = .ok index ∧
      dir.read file = none ∧
      rollOverSegments none dir manifest currentSeq nextTsMs =
        ({ dir.write file [] with
            manifest := some (manifest.rolled file currentSeq nextTsMs) },
          .ok (manifest.rolled file currentSeq nextTsMs, file)) := by
  unfold rollOverSegments rollOverPrepared maxIndex
  simp only [SegmentFault.at_none]
  split_ifs with hword hdigits
  · exact Or.inl ⟨_, _, rfl⟩
  · exact Or.inl ⟨_, _, rfl⟩
  · obtain ⟨number, hnumber⟩ :=
      validateSegmentFilename_segmentFilename (not_lt.mp hdigits)
    generalize segmentFilename _ = file at hnumber ⊢
    cases hread : dir.read file with
    | some content =>
        have hcreate : createSegment none dir file =
            (dir, .error (.io file "File exists")) := by
          simp [createSegment, hread]
        rw [hcreate]
        exact Or.inl ⟨_, _, rfl⟩
    | none =>
        refine Or.inr ⟨file, number, hnumber, hread, ?_⟩
        simp [createSegment, hread, hactive, saveManifest]

/-- A rollover without a fault moves the boundary, and no record. -/
theorem Serves.rollOver (hserves : Serves P dir handle records)
    (nextTsMs : UInt64)
    (hfull : ∀ active, handle.manifest.active = some active →
      active.startSeq ≠ handle.ledger.nextSeq) :
    match handle.rollOver none dir nextTsMs with
    | (after, next, .error error) =>
        (after = dir ∧ next = handle) ∧ ∃ path err, error = .io path err
    | (after, next, .ok ()) =>
        Follows P dir after next handle.ledger records := by
  obtain ⟨manifest, done, active, blocks, current, hstored, hmanifest, hfile,
    hlines⟩ := hserves.stored
  have hlayout := hstored.layout
  have hactive : handle.manifest.active = some active := by
    rw [hmanifest]
    exact hlayout.shape.active hlayout.segments
  unfold SegmentedLedger.rollOver
  rcases rollOverSegments_none dir handle.manifest handle.ledger.nextSeq
      nextTsMs hactive with
    ⟨path, err, herror⟩ | ⟨file, index, hindex, hfree, hrolled⟩
  · rw [herror]
    exact ⟨⟨rfl, rfl⟩, path, err, rfl⟩
  · rw [hrolled]
    simp only [SegmentFault.at_none]
    have hlength := hstored.length hlines
    rw [← hserves.counts] at hlength
    have hsegments : (handle.manifest.rolled file handle.ledger.nextSeq
        nextTsMs).segments =
          done ++ [{ active with
            openedMs := active.openedMs
            endSeq := some handle.ledger.nextSeq }] ++
          [{ file := file
             startSeq := handle.ledger.nextSeq
             endSeq := none
             openedMs := nextTsMs }] := by
      unfold Manifest.rolled
      rw [hmanifest, hlayout.segments,
        changeActive_append _ hlayout.shape.ended hlayout.shape.unsealed]
    have hempty : (dir.write file []).read file = some [] := by
      rw [Directory.read_write, if_pos rfl]
    have hcommitted := (hlayout.create hfree []).roll rfl
      (fun line hline => by
        obtain ⟨record, _, rfl⟩ := List.mem_map.mp hline
        exact newline_notMem_recordLine P record)
      hindex (hlayout.read_ne_none hfree) hempty hsegments
    have hnumbers : current.map (fun record => record.entry.seq) =
        List.range' active.startSeq
          (handle.ledger.nextSeq - active.startSeq) := by
      rw [hlength, Nat.add_sub_cancel_left]
      exact hstored.numbers
    have hlt : active.startSeq < handle.ledger.nextSeq := by
      have hne := hfull active hactive
      omega
    refine ⟨⟨hserves.live, hserves.counts, _, _, _, _, [],
      ⟨hcommitted, ?_, rfl⟩, rfl, rfl, ?_⟩, rfl, ?_⟩
    · exact hstored.ranged.snoc rfl rfl hlt rfl hnumbers
    · rw [hlines]
      simp [sealedLines]
    · rw [Directory.names, Directory.names, hstored.segments,
        Directory.segments_of_manifest hcommitted.saved, hsegments]
      exact ⟨[file], by simp⟩

theorem Serves.rebase (hserves : Serves P dir handle records)
    (tsMs : UInt64) :
    ∃ after next, handle.rebase none dir tsMs = (after, next, .ok ()) ∧
      Follows P dir after next handle.ledger records := by
  unfold SegmentedLedger.rebase
  split_ifs with hrebase
  · obtain ⟨manifest, done, active, blocks, current, hstored, hmanifest,
      hfile, hlines⟩ := hserves.stored
    have hlayout := hstored.layout
    have hsegments : (SegmentedLedger.rebased handle.manifest
        tsMs).segments = done ++ [{ active with openedMs := tsMs }] := by
      unfold SegmentedLedger.rebased
      rw [hmanifest, hlayout.segments,
        changeActive_append _ hlayout.shape.ended hlayout.shape.unsealed]
    have hrebased := hlayout.rebase tsMs hsegments
    refine ⟨_, _, rfl, ⟨hserves.live, hserves.counts, _, _, _, _, current,
      ⟨hrebased, hstored.ranged, hstored.numbers⟩, rfl, hfile, hlines⟩,
      rfl, ?_⟩
    rw [Directory.names, Directory.names, hstored.segments,
      Directory.segments_of_manifest hrebased.saved, hsegments]
    exact ⟨[], by simp⟩
  · exact ⟨dir, handle, rfl, hserves, rfl, List.prefix_refl _⟩

theorem prepare_none (dir : Directory) (handle : SegmentedLedger)
    (tsMs : UInt64) :
    handle.prepare none dir tsMs =
      if handle.shouldRollOver
          ((dir.read handle.activeFile).getD []).length tsMs then
        match handle.rollOver none dir tsMs with
        | (dir, handle, .error error) => (dir, handle, .error error)
        | (dir, handle, .ok ()) => handle.rebase none dir tsMs
      else handle.rebase none dir tsMs := rfl

/-- What an append does before its record goes through, or is out of
names. -/
theorem Serves.prepare (hserves : Serves P dir handle records)
    (tsMs : UInt64) :
    match handle.prepare none dir tsMs with
    | (after, next, .error error) =>
        (after = dir ∧ next = handle) ∧ ∃ path err, error = .io path err
    | (after, next, .ok ()) =>
        Follows P dir after next handle.ledger records := by
  rw [prepare_none]
  split_ifs with hroll
  · have hfull : ∀ active, handle.manifest.active = some active →
        active.startSeq ≠ handle.ledger.nextSeq := by
      intro active hactive hempty
      simp [SegmentedLedger.shouldRollOver, hactive, hempty] at hroll
    have hrolled := hserves.rollOver tsMs hfull
    generalize handle.rollOver none dir tsMs = result at hrolled ⊢
    obtain ⟨after, next, outcome⟩ := result
    cases outcome with
    | error error => exact hrolled
    | ok done =>
        obtain ⟨final, last, hrebase, hlast⟩ := hrolled.serves.rebase tsMs
        simp only [hrebase]
        exact ⟨hlast.serves, hlast.same.trans hrolled.same,
          hrolled.names.trans hlast.names⟩
  · obtain ⟨after, next, hrebase, hnext⟩ := hserves.rebase tsMs
    rw [hrebase]
    exact hnext

theorem Ledger.append_none (ledger : Ledger) (path : String) (file : Bytes)
    (entry : Entry) (hlive : ledger.failed = false) :
    ledger.append P path file entry none =
      (ledger.advance P entry,
        file ++ (recordLine P (ledger.sealNext P entry) ++ [newline]),
        .ok (ledger.sealNext P entry)) := by
  simp [Ledger.append, hlive, Ledger.writeLine]

/-- An append without a fault adds the record the head seals. -/
theorem Serves.append (hserves : Serves P dir handle records)
    (entry : Entry) :
    match handle.append P none none dir entry with
    | (after, next, .error error) =>
        (after = dir ∧ next = handle) ∧ ∃ path err, error = .io path err
    | (after, next, .ok record) =>
        record = handle.ledger.sealNext P entry ∧
          Follows P dir after next (handle.ledger.advance P entry)
            (records ++ [record]) := by
  have hprepare := hserves.prepare entry.tsMs
  unfold SegmentedLedger.append
  simp only [hserves.live, Bool.false_eq_true, if_false]
  generalize handle.prepare none dir entry.tsMs = result at hprepare ⊢
  obtain ⟨after, next, outcome⟩ := result
  cases outcome with
  | error error => exact hprepare
  | ok done =>
      obtain ⟨hnext, hsame, hnames⟩ := hprepare
      obtain ⟨manifest, done, active, blocks, current, hstored, hmanifest,
        hfile, hlines⟩ := hnext.stored
      have hread : (after.read next.activeFile).getD [] =
          joined newline (current.map (recordLine P)) := by
        rw [hfile, hstored.layout.holds.current, Option.getD_some]
      simp only [hread, Ledger.append_none _ _ _ _ hnext.live]
      rw [hsame]
      refine ⟨rfl, ⟨hserves.live, ?_, manifest, done, active, blocks,
        current ++ [handle.ledger.sealNext P entry], ⟨?_, hstored.ranged, ?_⟩,
        hmanifest, hfile, ?_⟩, rfl, hnames⟩
      · rw [List.length_append, List.length_singleton, ← hserves.counts]
        rfl
      · rw [hfile]
        have hwrite := hstored.layout.write (joined newline
          (current.map (recordLine P)) ++
            (recordLine P (handle.ledger.sealNext P entry) ++ [newline]))
        simpa using hwrite
      · have hlength := hstored.length hlines
        rw [List.map_append, hstored.numbers, List.map_singleton,
          List.length_append, List.length_singleton, List.range'_concat,
          Nat.one_mul, ← hlength, ← hserves.counts]
        rfl
      · rw [List.map_append, hlines, List.map_append, List.append_assoc]

theorem Serves.setSync (hserves : Serves P dir handle records)
    (sync : Bool) : Serves P dir (handle.setSync sync) records :=
  ⟨hserves.live, hserves.counts, hserves.stored⟩

/-- A batch writes its entries, or those before one that is out of names. -/
theorem Serves.appendEach (hserves : Serves P dir handle records)
    (entries : List Entry) :
    match handle.appendEach P dir entries with
    | (after, next, answer) =>
        ∃ taken, taken <+: entries ∧
          ((answer = .ok () ∧ taken = entries) ∨
            ∃ path err, answer = .error (.io path err)) ∧
          Follows P dir after next (handle.ledger.advanceAll P taken)
            (records ++ handle.ledger.sealAll P taken) := by
  induction entries generalizing dir handle records with
  | nil =>
      refine ⟨[], List.prefix_refl _, Or.inl ⟨rfl, rfl⟩, ?_, rfl,
        List.prefix_refl _⟩
      simpa [Ledger.sealAll] using hserves
  | cons entry rest ih =>
      have hstep := hserves.append entry
      rw [SegmentedLedger.appendEach]
      generalize handle.append P none none dir entry = result at hstep ⊢
      obtain ⟨after, next, outcome⟩ := result
      cases outcome with
      | error error =>
          obtain ⟨⟨rfl, rfl⟩, path, err, rfl⟩ := hstep
          refine ⟨[], List.nil_prefix, Or.inr ⟨path, err, rfl⟩, ?_, rfl,
            List.prefix_refl _⟩
          simpa [Ledger.sealAll] using hserves
      | ok record =>
          obtain ⟨hrecord, hnext, hsame, hnames⟩ := hstep
          have hrest := ih hnext
          simp only
          generalize next.appendEach P after rest = result at hrest ⊢
          obtain ⟨final, last, outcome⟩ := result
          obtain ⟨taken, hbegins, hanswer, hlast, hsealed, hmore⟩ := hrest
          rw [hsame] at hsealed hlast
          rw [hrecord, List.append_assoc] at hlast
          refine ⟨entry :: taken, ?_, ?_, hlast, hsealed,
            hnames.trans hmore⟩
          · exact (List.prefix_cons_inj entry).mpr hbegins
          · exact hanswer.imp_left fun hall => ⟨hall.1, by rw [hall.2]⟩

end Appends

/-! ## Reopening -/

/-- The head an open adopts over a file's records. -/
def adoptHead (records : List RecordOut) (verifiers : List VerifyingKey)
    (signer : VerifyingKey) : Except LedgerError VerifyReport :=
  (judgeOpenHead P [⟨"", joined newline (records.map (recordLine P))⟩]
    verifiers signer none).map Prod.fst

section Reopening

variable {P} {dir : Directory} {records : List RecordOut}

theorem newline_notMem_lines (records : List RecordOut) :
    ∀ line ∈ records.map (recordLine P), newline ∉ line := by
  intro line hline
  obtain ⟨record, _, rfl⟩ := List.mem_map.mp hline
  exact newline_notMem_recordLine P record

/-- Without an anchor a head depends on the lines read alone. -/
theorem judgeOpenHead_congr {files others : List LedgerFile}
    (hlines : prefixLines files = prefixLines others)
    (verifiers : List VerifyingKey) (signer : VerifyingKey) :
    judgeOpenHead P files verifiers signer none =
      judgeOpenHead P others verifiers signer none := by
  unfold judgeOpenHead verifyPrefix consultAnchor
  rw [hlines]

theorem resolveOpenHead_clean {earlier : List LedgerFile} {path : String}
    {content : Bytes} (htorn :
      (prefixLines (earlier ++ [⟨path, content⟩])).2 = none)
    (verifiers : List VerifyingKey) (signer : VerifyingKey) :
    resolveOpenHead P none earlier path content verifiers signer none =
      (content, (judgeOpenHead P (earlier ++ [⟨path, content⟩]) verifiers
        signer none).map Prod.fst) := by
  unfold resolveOpenHead
  simp only [failsAt_none]
  cases hjudge : judgeOpenHead P (earlier ++ [⟨path, content⟩]) verifiers
      signer none with
  | error error => rfl
  | ok judged =>
      obtain ⟨report, torn⟩ := judged
      obtain ⟨_, _, _, _, _, hstart⟩ := (judgeOpenHead_eq_ok_iff P).mp hjudge
      rw [htorn] at hstart
      rw [hstart]
      rfl

theorem readAs_lines {decoded : List (Except LedgerError String)}
    (hread : ReadAs (records.map (recordLine P)) decoded) :
    decoded = (records.map (RecordOut.line P)).map Except.ok := by
  induction records generalizing decoded with
  | nil =>
      cases hread
      rfl
  | cons record rest ih =>
      rw [List.map_cons] at hread
      have hdecoded := fun path => decodeLine_recordLine P path record
      generalize recordLine P record = line at hread hdecoded
      cases hread with
      | unread hline =>
          rw [hdecoded] at hline
          cases hline
      | read hline hrest =>
          rw [hdecoded] at hline
          cases hline
          simp only [ih hrest, List.map_cons]

/-- A file of records reads as their lines. -/
theorem prefixLines_written (path : String) (records : List RecordOut) :
    prefixLines [⟨path, joined newline (records.map (recordLine P))⟩] =
      ((records.map (RecordOut.line P)).map Except.ok, none) := by
  have hcut := LineText.cut_joined newline (newline_notMem_lines (P := P) records)
  rw [prefixLines_single, scanTornTail_eq, hcut, map_decodeLine_recordLine,
    untilUnread_map_ok]
  rfl

/-- So do its segments. -/
theorem Divided.prefixLines_eq {manifest : Manifest}
    {done : List SegmentMeta} {active : SegmentMeta}
    {blocks : List SealedFile} {current : List RecordOut}
    (hstored : Divided P dir manifest done active blocks current)
    (hlines : records.map (recordLine P) =
      sealedLines blocks ++ current.map (recordLine P)) :
    prefixLines (blocks.map SealedFile.file ++
        [⟨active.file, joined newline (current.map (recordLine P))⟩]) =
      ((records.map (RecordOut.line P)).map Except.ok, none) := by
  have hcut := LineText.cut_joined newline (newline_notMem_lines (P := P) current)
  have hread := readAs_prefixLines hstored.layout.holds.complete
    ⟨active.file, joined newline (current.map (recordLine P))⟩
  rw [hcut, ← hlines] at hread
  apply Prod.ext
  · exact readAs_lines hread
  · rw [prefixLines_append_snd, hcut]
    rfl

theorem adoptHead_entries {verifiers : List VerifyingKey}
    (hverifiers : verifiers ≠ []) {signer : VerifyingKey}
    {report : VerifyReport}
    (hadopt : adoptHead P records verifiers signer = .ok report) :
    report.entries = records.length := by
  unfold adoptHead at hadopt
  cases hjudge : judgeOpenHead P
      [⟨"", joined newline (records.map (recordLine P))⟩] verifiers signer
      none with
  | error error =>
      rw [hjudge] at hadopt
      cases hadopt
  | ok judged =>
      obtain ⟨found, torn⟩ := judged
      rw [hjudge] at hadopt
      cases hadopt
      obtain ⟨state, hstate, _, _, rfl, _⟩ :=
        (judgeOpenHead_eq_ok_iff P).mp hjudge
      rw [prefixLines_written] at hstate
      have hcount := (verifyFrom_final P hverifiers
        (Exportable.readRecords_lines records) hstate).1
      rw [List.length_map] at hcount
      exact hcount.trans (Nat.zero_add _)

/-- Opening a file of records. -/
theorem openSingleInner_written (target : Target) (path : String)
    (records : List RecordOut) (key : SigningKey)
    (retired : List VerifyingKey) :
    openSingleInner P target none path
        (some (joined newline (records.map (recordLine P)))) key retired
        none =
      (some (joined newline (records.map (recordLine P))),
        (adoptHead P records (keyring P key retired)
          (P.verifyingKey key)).map fun report =>
            Ledger.opened key (keyring P key retired) report.root
              report.entries report.signers) := by
  have hlines := prefixLines_written (P := P) path records
  have hsame := judgeOpenHead_congr (P := P)
    (hlines.trans (prefixLines_written (P := P) "" records).symm)
    (keyring P key retired) (P.verifyingKey key)
  rw [openSingleInner_some, resolveOpenHead_clean (by
    rw [List.nil_append, hlines]), List.nil_append, hsame, ← adoptHead]
  cases adoptHead P records (keyring P key retired) (P.verifyingKey key) <;>
    rfl

/-- A file that is not there opens as an empty one. -/
theorem openSingleInner_missing (target : Target) (path : String)
    (key : SigningKey) (retired : List VerifyingKey) :
    openSingleInner P target none path none key retired none =
      openSingleInner P target none path (some []) key retired none := by
  cases target with
  | unix => rfl
  | windows =>
      have hempty := openSingleInner_written (P := P) .windows path [] key
        retired
      simp only [List.map_nil, LineText.joined_nil] at hempty
      have hread : prefixLines [⟨"", []⟩] = ([], none) :=
        prefixLines_written (P := P) "" []
      have hadopt : adoptHead P [] (keyring P key retired)
          (P.verifyingKey key) =
            .ok (VerifyState.report {} (keyring P key retired)) := by
        unfold adoptHead judgeOpenHead verifyPrefix
        simp only [List.map_nil, LineText.joined_nil, hread]
        rfl
      rw [hempty, hadopt]
      rfl

/-- Opening segments adopts the head of the file that holds their records. -/
theorem Keeps.reopen (hkeeps : Keeps P dir records) (key : SigningKey)
    (retired : List VerifyingKey) (policy : RolloverPolicy) :
    match openSegmentedInner P none none dir key retired policy none,
      adoptHead P records (keyring P key retired) (P.verifyingKey key) with
    | (after, .error error), .error refused =>
        error = refused ∧ Keeps P after records ∧ after.names = dir.names
    | (after, .ok handle), .ok report =>
        Follows P dir after handle (Ledger.opened key (keyring P key retired)
          report.root report.entries report.signers) records
    | _, _ => False := by
  obtain ⟨manifest, done, active, blocks, current, hstored, hlines⟩ := hkeeps
  have hload := hstored.layout.shape.load hstored.layout.saved
    hstored.layout.segments
  have hopened : openSegmentedInner P none none dir key retired policy none =
      openManifest P none dir manifest key (keyring P key retired) policy
        none := by
    unfold openSegmentedInner manifestToOpen
    simp only [SegmentFault.at_none, hload]
  have hbegins := hstored.prefixLines_eq hlines
  have hsame := judgeOpenHead_congr (P := P)
    (hbegins.trans (prefixLines_written (P := P) "" records).symm)
    (keyring P key retired) (P.verifyingKey key)
  have hagain : Divided P (dir.write active.file
      (joined newline (current.map (recordLine P)))) manifest done active
        blocks current :=
    ⟨hstored.layout.write _, hstored.ranged, hstored.numbers⟩
  rw [hopened, openManifest_eq P hstored.layout,
    resolveOpenHead_clean (by rw [hbegins]), hsame, ← adoptHead]
  cases hadopt : adoptHead P records (keyring P key retired)
      (P.verifyingKey key) with
  | error error =>
      exact ⟨rfl, ⟨manifest, done, active, blocks, current, hagain, hlines⟩,
        rfl⟩
  | ok report =>
      have hentries := adoptHead_entries
        (List.ne_nil_of_mem (keyring_mem P key retired)) hadopt
      exact ⟨⟨rfl, hentries, manifest, done, active, blocks, current, hagain,
        rfl, rfl, hlines⟩, rfl, List.prefix_refl _⟩

/-- A directory that was just started keeps no record. -/
theorem keeps_started (dir : Directory) :
    Keeps P { dir.write firstSegment.file [] with
      manifest := some firstManifest } [] :=
  ⟨firstManifest, [], firstSegment, [], [],
    ⟨layout_initialized dir, .nil 0, rfl⟩, rfl⟩

end Reopening

/-! ## Runs -/

/-- A segment directory and a file under the same calls. -/
inductive Reflects : SegmentState → World → Prop where
  | fresh : Reflects .start { file := none, session := none }
  | closed {dir : Directory} {records : List RecordOut}
      (keeps : Keeps P dir records) :
      Reflects { directory := dir, handle := none }
        { file := some (joined newline (records.map (recordLine P)))
          session := none }
  | opened {dir : Directory} {handle : SegmentedLedger} {session : Session}
      {records : List RecordOut} (serves : Serves P dir handle records)
      (same : session.ledger = handle.ledger) :
      Reflects { directory := dir, handle := some handle }
        { file := some (joined newline (records.map (recordLine P)))
          session := some session }

section Runs

variable {P} (target : Target) (path : String)

theorem Serves.keeps {dir : Directory} {handle : SegmentedLedger}
    {records : List RecordOut} (hserves : Serves P dir handle records) :
    Keeps P dir records := by
  obtain ⟨manifest, done, active, blocks, current, hstored, _, _, hlines⟩ :=
    hserves.stored
  exact ⟨manifest, done, active, blocks, current, hstored, hlines⟩

/-- Opening both again, with nothing open. -/
theorem Keeps.refines_open {dir : Directory} {records : List RecordOut}
    (hkeeps : Keeps P dir records) (handle : Option SegmentedLedger)
    (key : SigningKey) (retired : List VerifyingKey)
    (policy : RolloverPolicy) :
    Reflects P
        (SegmentState.next P { directory := dir, handle := handle }
          (.reopen key retired policy))
        (World.step P target path
          { file := some (joined newline (records.map (recordLine P)))
            session := none } (.open key retired none none)) ∧
      dir.names <+: (SegmentState.next P
        { directory := dir, handle := handle }
        (.reopen key retired policy)).directory.names := by
  have hreopen := hkeeps.reopen key retired policy
  unfold SegmentState.next SegmentState.call World.step
  simp only [openSingleInner_written]
  generalize openSegmentedInner P none none dir key retired policy none =
    result at hreopen ⊢
  obtain ⟨after, outcome⟩ := result
  cases hadopt : adoptHead P records (keyring P key retired)
      (P.verifyingKey key) with
  | error refused =>
      rw [hadopt] at hreopen
      cases outcome with
      | ok handle => exact hreopen.elim
      | error error =>
          obtain ⟨_, hkept, hnames⟩ := hreopen
          refine ⟨.closed hkept, ?_⟩
          rw [hnames]
  | ok report =>
      rw [hadopt] at hreopen
      cases outcome with
      | error error => exact hreopen.elim
      | ok handle =>
          obtain ⟨hserves, hsame, hnames⟩ := hreopen
          exact ⟨.opened hserves hsame.symm, hnames⟩

/-- The first open starts the directory, and the file. -/
theorem openSegmentedInner_start (key : SigningKey)
    (retired : List VerifyingKey) (policy : RolloverPolicy) :
    openSegmentedInner P none none SegmentState.start.directory key retired
        policy none =
      openSegmentedInner P none none
        { SegmentState.start.directory.write firstSegment.file [] with
          manifest := some firstManifest } key retired policy none := by
  have hlayout := layout_initialized SegmentState.start.directory
  have hload := hlayout.shape.load hlayout.saved hlayout.segments
  have hstart : loadManifest none SegmentState.start.directory = .ok none :=
    loadManifest_eq_none rfl
  unfold openSegmentedInner manifestToOpen
  simp only [SegmentFault.at_none, hload, hstart]
  rfl

/-- An append is refused and changes nothing, or both ledgers take it. -/
theorem Serves.refines_append {dir : Directory} {handle : SegmentedLedger}
    {session : Session} {records : List RecordOut}
    (hserves : Serves P dir handle records)
    (hsame : session.ledger = handle.ledger) (entry : Entry) :
    let state : SegmentState := { directory := dir, handle := some handle }
    (state.next P (.append entry) = state ∧ ∃ name err,
      (state.call P (.append entry)).2 = .error (.io name err)) ∨
    Reflects P (state.next P (.append entry))
        (World.step P target path
          { file := some (joined newline (records.map (recordLine P)))
            session := some session } (.append entry none)) ∧
      dir.names <+: (state.next P (.append entry)).directory.names := by
  have happend := hserves.append entry
  unfold SegmentState.next SegmentState.call World.step
  simp only
  rw [Option.getD_some, hsame, Ledger.append_none _ _ _ _ hserves.live]
  generalize handle.append P none none dir entry = result at happend ⊢
  obtain ⟨after, next, outcome⟩ := result
  cases outcome with
  | error error =>
      obtain ⟨⟨rfl, rfl⟩, name, err, rfl⟩ := happend
      exact Or.inl ⟨rfl, name, err, rfl⟩
  | ok record =>
      obtain ⟨hrecord, hnext, hledger, hnames⟩ := happend
      refine Or.inr ⟨?_, hnames⟩
      have hbytes : joined newline (records.map (recordLine P)) ++
          (recordLine P (handle.ledger.sealNext P entry) ++ [newline]) =
            joined newline ((records ++ [record]).map (recordLine P)) := by
        rw [hrecord]
        simp
      unfold Session.appended
      rw [hbytes]
      exact .opened hnext hledger.symm

/-- A batch is the one the file takes, or the part of it before a refusal. -/
theorem Serves.refines_appendAll {dir : Directory} {handle : SegmentedLedger}
    {session : Session} {records : List RecordOut}
    (hserves : Serves P dir handle records)
    (hsame : session.ledger = handle.ledger) (entries : List Entry) :
    let state : SegmentState := { directory := dir, handle := some handle }
    ∃ taken, taken <+: entries ∧
      (taken = entries ∨ ∃ name err,
        (state.call P (.appendAll entries)).2 = .error (.io name err)) ∧
      Reflects P (state.next P (.appendAll entries))
        (World.step P target path
          { file := some (joined newline (records.map (recordLine P)))
            session := some session }
          (.appendAll (taken.map fun entry => (entry, none)) none)) ∧
      dir.names <+: (state.next P (.appendAll entries)).directory.names := by
  have heach := (hserves.setSync false).appendEach entries
  unfold SegmentState.next SegmentState.call SegmentedLedger.appendAll
    World.step Ledger.appendAll
  simp only
  generalize (handle.setSync false).appendEach P dir entries = result
    at heach ⊢
  obtain ⟨after, last, outcome⟩ := result
  obtain ⟨taken, hbegins, hanswer, hlast, hledger, hnames⟩ := heach
  refine ⟨taken, hbegins, hanswer.imp_left And.right, ?_, hnames⟩
  have hlive : ({ handle.ledger with sync := false } : Ledger).failed =
      false := hserves.live
  rw [Option.getD_some, hsame, appendEach_none P path _ _ [] taken hlive]
  have hbytes : joined newline (records.map (recordLine P)) ++
      joined newline (({ handle.ledger with
        sync := false } : Ledger).inFlight P taken) =
        joined newline ((records ++ ({ handle.ledger with
          sync := false } : Ledger).sealAll P taken).map
            (recordLine P)) := by
    rw [List.map_append, LineText.joined_append]
    rfl
  have hsynced := hlast.setSync handle.ledger.sync
  have hfinal : ({ Ledger.advanceAll P { handle.ledger with
      sync := false } taken with sync := handle.ledger.sync } : Ledger) =
        (last.setSync handle.ledger.sync).ledger := by
    rw [SegmentedLedger.setSync, hledger]
    rfl
  unfold Session.appended
  split_ifs
  · simp only [hbytes]
    exact .opened hsynced hfinal
  · simp only [hbytes]
    exact .opened hsynced hfinal

theorem Serves.rotate {dir : Directory} {handle : SegmentedLedger}
    {records : List RecordOut} (hserves : Serves P dir handle records)
    (newKey : SigningKey) :
    Serves P dir { handle with ledger := (handle.ledger.rotate P newKey).1 }
      records := by
  have hkept : (handle.ledger.rotate P newKey).1.failed =
        handle.ledger.failed ∧
      (handle.ledger.rotate P newKey).1.nextSeq = handle.ledger.nextSeq := by
    unfold Ledger.rotate
    simp only
    split <;> exact ⟨rfl, rfl⟩
  exact ⟨hkept.1.trans hserves.live, hkept.2.trans hserves.counts,
    hserves.stored⟩

variable {state : SegmentState} {world : World}

theorem Reflects.reopen (hrefines : Reflects P state world)
    (key : SigningKey) (retired : List VerifyingKey)
    (policy : RolloverPolicy) :
    Reflects P (state.next P (.reopen key retired policy))
        (StateRun.run (World.step P target path) world
          [.close, .open key retired none none]) ∧
      state.directory.names <+:
        (state.next P (.reopen key retired policy)).directory.names := by
  cases hrefines with
  | fresh =>
      have hrefined := ((keeps_started (P := P)
        SegmentState.start.directory).refines_open target path none key
          retired policy).1
      refine ⟨?_, List.nil_prefix⟩
      unfold SegmentState.next SegmentState.call World.step at hrefined
      unfold StateRun.run SegmentState.next SegmentState.call World.step
      simp only [List.foldl_cons, List.foldl_nil, List.map_nil,
        LineText.joined_nil] at hrefined ⊢
      rw [openSegmentedInner_start, openSingleInner_missing]
      exact hrefined
  | closed keeps => exact keeps.refines_open target path none key retired policy
  | @opened dir handle session records serves same =>
      exact serves.keeps.refines_open target path (some handle) key retired
        policy

theorem Reflects.append (hrefines : Reflects P state world) (entry : Entry) :
    (state.next P (.append entry) = state ∧ ∃ name err,
      (state.call P (.append entry)).2 = .error (.io name err)) ∨
    Reflects P (state.next P (.append entry))
        (world.step P target path (.append entry none)) ∧
      state.directory.names <+:
        (state.next P (.append entry)).directory.names := by
  cases hrefines with
  | fresh => exact Or.inr ⟨.fresh, List.prefix_refl _⟩
  | closed keeps => exact Or.inr ⟨.closed keeps, List.prefix_refl _⟩
  | opened serves same => exact serves.refines_append target path same entry

theorem Reflects.appendAll (hrefines : Reflects P state world)
    (entries : List Entry) :
    ∃ taken, taken <+: entries ∧
      (taken = entries ∨ ∃ name err,
        (state.call P (.appendAll entries)).2 = .error (.io name err)) ∧
      Reflects P (state.next P (.appendAll entries))
        (world.step P target path
          (.appendAll (taken.map fun entry => (entry, none)) none)) ∧
      state.directory.names <+:
        (state.next P (.appendAll entries)).directory.names := by
  cases hrefines with
  | fresh =>
      exact ⟨entries, List.prefix_refl _, Or.inl rfl, .fresh,
        List.prefix_refl _⟩
  | closed keeps =>
      exact ⟨entries, List.prefix_refl _, Or.inl rfl, .closed keeps,
        List.prefix_refl _⟩
  | opened serves same =>
      exact serves.refines_appendAll target path same entries

theorem Reflects.rotate (hrefines : Reflects P state world)
    (newKey : SigningKey) :
    Reflects P (state.next P (.rotate newKey))
        (world.step P target path (.rotate newKey)) ∧
      state.directory.names <+:
        (state.next P (.rotate newKey)).directory.names := by
  cases hrefines with
  | fresh => exact ⟨.fresh, List.prefix_refl _⟩
  | closed keeps => exact ⟨.closed keeps, List.prefix_refl _⟩
  | @opened dir handle session records serves same =>
      have hledger : (session.ledger.rotate P newKey).1 =
          (handle.ledger.rotate P newKey).1 := by rw [same]
      exact ⟨.opened (serves.rotate newKey) hledger, List.prefix_refl _⟩

/-- A call without an I/O error keeps the two together, and every segment
under its name. -/
theorem next_refines (hrefines : Reflects P state world)
    (request : LedgerCall) (hio : state.NoIoFailure P request) :
    Reflects P (state.next P request)
        (StateRun.run (World.step P target path) world request.operations) ∧
      state.directory.names <+: (state.next P request).directory.names := by
  cases request with
  | reopen key retired policy =>
      exact hrefines.reopen target path key retired policy
  | append entry =>
      rcases hrefines.append target path entry with
        ⟨_, name, err, herror⟩ | hrefined
      · exact absurd herror (hio name err)
      · exact hrefined
  | appendAll entries =>
      obtain ⟨taken, _, htaken, hrefined⟩ :=
        hrefines.appendAll target path entries
      rcases htaken with rfl | ⟨name, err, herror⟩
      · exact hrefined
      · exact absurd herror (hio name err)
  | rotate newKey => exact hrefines.rotate target path newKey

theorem run_refines {calls : List LedgerCall} (hrefines : Reflects P state world)
    (hcalls : StateRun.Admitted (SegmentState.next P)
      (SegmentState.NoIoFailure P) state calls) :
    Reflects P (StateRun.run (SegmentState.next P) state calls)
        (StateRun.run (World.step P target path) world
          (calls.flatMap LedgerCall.operations)) ∧
      state.directory.names <+:
        (StateRun.run (SegmentState.next P) state calls).directory.names := by
  have hstep : ∀ later image request,
      Reflects P later image ∧ state.directory.names <+: later.directory.names →
      later.NoIoFailure P request →
      Reflects P (later.next P request)
          (StateRun.run (World.step P target path) image request.operations) ∧
        state.directory.names <+:
          (later.next P request).directory.names := by
    rintro later image request ⟨hlater, hnames⟩ hio
    obtain ⟨hnext, hmore⟩ := next_refines target path hlater request hio
    exact ⟨hnext, hnames.trans hmore⟩
  exact StateRun.run_simulates (SegmentState.next P) hstep
    ⟨hrefines, List.prefix_refl _⟩ hcalls

theorem Keeps.stored {dir : Directory} {records : List RecordOut}
    (hkeeps : Keeps P dir records) :
    dir.stored = joined newline (records.map (recordLine P)) ∧
      loadManifest none dir = .ok dir.manifest ∧
      Partitions P dir 0 dir.segments ∧ dir.names.Nodup := by
  obtain ⟨_, _, _, _, _, hstored, hlines⟩ := hkeeps
  rw [hstored.bytes, hlines]
  exact ⟨rfl, hstored.load, hstored.partitions, hstored.nodup⟩

theorem Reflects.stored (hrefines : Reflects P state world) :
    state.directory.stored = world.file.getD [] ∧
      loadManifest none state.directory = .ok state.directory.manifest ∧
      Partitions P state.directory 0 state.directory.segments ∧
      state.directory.names.Nodup := by
  cases hrefines with
  | fresh => exact ⟨rfl, rfl, trivial, List.nodup_nil⟩
  | closed keeps => exact keeps.stored
  | opened serves same => exact serves.keeps.stored

end Runs

/-- Calls without an I/O error leave in the segments, in manifest order, the
bytes they leave in a single file; the manifest loads, the segments divide the
records in order, and a segment's name is never given again. -/
theorem segments_refine_file (target : Target) (path : String)
    (earlier later : List LedgerCall)
    (hcalls : StateRun.Admitted (SegmentState.next P)
      (SegmentState.NoIoFailure P) .start (earlier ++ later)) :
    let before := StateRun.run (SegmentState.next P) .start earlier
    let after := StateRun.run (SegmentState.next P) .start (earlier ++ later)
    after.directory.stored = (World.after P target path none
        ((earlier ++ later).flatMap LedgerCall.operations)).file.getD [] ∧
      loadManifest none after.directory = .ok after.directory.manifest ∧
      Partitions P after.directory 0 after.directory.segments ∧
      after.directory.names.Nodup ∧
      before.directory.names <+: after.directory.names := by
  intro before after
  obtain ⟨hfirst, hsecond⟩ := (StateRun.admitted_append _).mp hcalls
  have hbefore := (run_refines target path .fresh hfirst).1
  have hafter := (run_refines target path .fresh hcalls).1
  obtain ⟨hbytes, hload, hparts, hnodup⟩ := hafter.stored
  refine ⟨hbytes, hload, hparts, hnodup, ?_⟩
  have hnames := (run_refines target path hbefore hsecond).2
  rw [← StateRun.run_append] at hnames
  exact hnames

theorem SegmentState.noIoFailure_of_ok {state : SegmentState}
    {request : LedgerCall} (hok : (state.call P request).2 = .ok ()) :
    state.NoIoFailure P request := by
  intro path err herror
  rw [hok] at herror
  cases herror

/-- An append, and one in the next epoch. -/
def sampleAppends : List LedgerCall :=
  [.append { sampleEntry .null with tsMs := 5 },
    .append { sampleEntry .null with tsMs := 25 }]

def sampleReopen : LedgerCall :=
  .reopen (sampleKey 1) [] { maxBytes := none, epochMs := some 10 }

theorem segments_refine_file_sample :
    (StateRun.run (SegmentState.next samplePlatform) .start
        ([sampleReopen] ++ sampleAppends)).directory.names.length = 2 ∧
      (StateRun.run (SegmentState.next samplePlatform) .start
          ([sampleReopen] ++ sampleAppends)).directory.stored =
        (World.after samplePlatform .unix "ledger" none
          (([sampleReopen] ++ sampleAppends).flatMap
            LedgerCall.operations)).file.getD [] := by
  have hcalls : StateRun.Admitted (SegmentState.next samplePlatform)
      (SegmentState.NoIoFailure samplePlatform) .start
      ([sampleReopen] ++ sampleAppends) :=
    ⟨SegmentState.noIoFailure_of_ok samplePlatform rfl,
      SegmentState.noIoFailure_of_ok samplePlatform rfl,
      SegmentState.noIoFailure_of_ok samplePlatform rfl, trivial⟩
  exact ⟨rfl, (segments_refine_file samplePlatform .unix "ledger"
    [sampleReopen] sampleAppends hcalls).1⟩

end Decern
