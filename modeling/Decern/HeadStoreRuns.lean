import Decern.HeadStore
import Decern.StateRun
import Mathlib.Tactic

/-!
# Commits of the file head store

A disk mirrors a shard when its committed records and cursor are the shard's.
Every step of a commit but one keeps what the disk mirrors; the replacement of
the head moves it to the shard with one more record.
-/

namespace Decern

open ByteText (Bytes newline)

/-! ## Logs -/

/-- A log of some lines. -/
def logBytes (lines : List String) : Bytes :=
  LineText.joined newline (lines.map ByteText.encode)

/-- A record the log can hold. -/
def OneLine (line : String) : Prop :=
  '\n' ∉ line.toList

theorem encode_ofList_joined (lines : List String) :
    ByteText.encode (String.ofList
      (LineText.joined '\n' (lines.map String.toList))) = logBytes lines := by
  have hnewline : String.utf8EncodeChar '\n' = [newline] := by decide
  rw [ByteText.encode, String.toList_ofList, logBytes]
  induction lines with
  | nil => rfl
  | cons line rest ih =>
      simp only [List.map_cons, LineText.joined_cons, List.flatMap_append,
        List.flatMap_cons, hnewline, ih]
      rfl

@[simp] theorem logBytes_nil : logBytes [] = [] := rfl

@[simp] theorem logBytes_append (left right : List String) :
    logBytes (left ++ right) = logBytes left ++ logBytes right := by
  simp [logBytes]

theorem logBytes_singleton (line : String) :
    logBytes [line] = ByteText.encode line ++ [newline] := by
  simp [logBytes, LineText.joined]

theorem splitTerminator_joined {lines : List String}
    (hlines : ∀ line ∈ lines, OneLine line) :
    splitTerminator (String.ofList
      (LineText.joined '\n' (lines.map String.toList))) = lines := by
  have hcut : LineText.cut '\n'
      (LineText.joined '\n' (lines.map String.toList)) =
      (lines.map String.toList, []) :=
    LineText.cut_joined '\n' (by simpa [OneLine] using hlines)
  simp [splitTerminator, hcut]

theorem numbered_map_recordJson (lines : List String) :
    (numbered lines).map StoredRecord.recordJson = lines := by
  rw [numbered, List.map_map]
  exact List.zipIdx_map_fst 0 lines

@[simp] theorem numbered_length (lines : List String) :
    (numbered lines).length = lines.length := by
  simp [numbered]

theorem numbered_append_singleton (lines : List String) (line : String) :
    numbered (lines ++ [line]) = numbered lines ++ [⟨lines.length, line⟩] := by
  simp [numbered, List.zipIdx_append]

/-- What a committed log reads as. -/
theorem readLog_logBytes (files : ShardFiles) {lines : List String}
    (hlines : ∀ line ∈ lines, OneLine line) {tail : Bytes}
    {log : Option Bytes} (hlog : log.getD [] = logBytes lines ++ tail)
    {cursor : Option HeadCursor} (hcount : countOf cursor = lines.length) :
    readLog files log ⟨cursor, (logBytes lines).length⟩ =
      .ok (numbered lines) := by
  have hdecode : ByteText.decode (logBytes lines) = some (String.ofList
      (LineText.joined '\n' (lines.map String.toList))) := by
    rw [← encode_ofList_joined, ByteText.decode_encode]
  have hlast : ¬ (0 < (logBytes lines).length ∧
      (LineText.joined '\n' (lines.map String.toList)).getLast? ≠
        some '\n') := by
    rintro ⟨hpos, hlast⟩
    apply hlast
    cases lines using List.reverseRecOn with
    | nil => cases hpos
    | append_singleton rest line => simp [LineText.joined]
  simp only [readLog, hlog, List.length_append, List.take_left, hdecode,
    splitTerminator_joined hlines, numbered_length, hcount,
    String.toList_ofList, ne_eq, not_true_eq_false, or_false]
  rw [if_neg (by omega), if_neg hlast]

/-- A log that reads is its committed lines and whatever follows them. -/
theorem readLog_eq_ok {files : ShardFiles} {log : Option Bytes}
    {head : FileHead} {records : List StoredRecord}
    (hok : readLog files log head = .ok records) :
    ∃ lines tail, (∀ line ∈ lines, OneLine line) ∧
      log.getD [] = logBytes lines ++ tail ∧
      head.logLen = (logBytes lines).length ∧
      records = numbered lines ∧ countOf head.cursor = lines.length := by
  unfold readLog at hok
  simp only at hok
  split at hok
  case isTrue => cases hok
  case isFalse hlen =>
    split at hok
    case h_1 => cases hok
    case h_2 text htext =>
      split at hok
      case isTrue => cases hok
      case isFalse hends =>
        cases hok
        rw [not_or] at hends
        have hbytes := ByteText.encode_of_decode htext
        have hsplit := LineText.joined_cut_append_tail '\n' text.toList
        -- the committed text ends its last line
        have htail : (LineText.cut '\n' text.toList).2 = [] := by
          by_contra hne
          have hlast : text.toList.getLast? =
              (LineText.cut '\n' text.toList).2.getLast? := by
            rw [← hsplit, List.getLast?_append_of_ne_nil _ hne, hsplit]
          have hnewline : text.toList.getLast? = some '\n' := by
            by_contra hnot
            apply hends.1
            refine ⟨?_, hnot⟩
            by_contra hzero
            have hnil : head.logLen = 0 := by omega
            rw [hnil, List.take_zero] at hbytes
            have htextNil : text.toList = [] := by
              have hempty : text = "" :=
                ByteText.encode_injective hbytes
              rw [hempty]
              rfl
            rw [htextNil] at hne
            exact hne rfl
          rw [hlast] at hnewline
          exact LineText.sep_notMem_tail '\n' text.toList
            (List.mem_of_getLast? hnewline)
        have hlines : splitTerminator text =
            (LineText.cut '\n' text.toList).1.map String.ofList := by
          simp [splitTerminator, htail]
        have htoList : (splitTerminator text).map String.toList =
            (LineText.cut '\n' text.toList).1 := by
          rw [hlines, List.map_map]
          simp [Function.comp_def]
        have htake : (log.getD []).take head.logLen =
            logBytes (splitTerminator text) := by
          rw [← encode_ofList_joined, htoList, ← hbytes]
          congr 1
          rw [htail, List.append_nil] at hsplit
          rw [hsplit, String.ofList_toList]
        refine ⟨splitTerminator text, (log.getD []).drop head.logLen, ?_, ?_,
          ?_, rfl, ?_⟩
        · intro line hline
          rw [hlines] at hline
          obtain ⟨piece, hpiece, rfl⟩ := List.mem_map.mp hline
          rw [OneLine, String.toList_ofList]
          exact LineText.sep_notMem_of_mem_cut '\n' hpiece
        · rw [← htake, List.take_append_drop]
        · rw [← htake, List.length_take]
          omega
        · rw [← numbered_length]
          exact (not_not.mp hends.2).symm

/-! ## What a disk mirrors -/

/-- A `.shard` path that does not stand for the shard's history: nothing, the
marker, or an earlier layout whose records are among the given lines. -/
def Beside.Spent (lines : List String) : Beside → Prop
  | .missing => True
  | .marker => True
  | .earlier old => old.records.map StoredRecord.recordJson <+: lines

/-- The shard a disk holds. -/
inductive Mirrors (files : ShardFiles) : ShardDisk → Shard → Prop
  | headed (disk : ShardDisk) (beside : Beside) (lines : List String)
      (tail : Bytes) (cursor : Option HeadCursor)
      (hbeside : readBeside files disk.shardFile = .ok beside)
      (hspent : beside.Spent lines)
      (hhead : disk.head = .holds ⟨cursor, (logBytes lines).length⟩)
      (hlog : disk.log.getD [] = logBytes lines ++ tail)
      (hlines : ∀ line ∈ lines, OneLine line)
      (hcount : countOf cursor = lines.length) :
      Mirrors files disk ⟨cursor, numbered lines⟩
  | converting (disk : ShardDisk) (lines : List String) (cursor : HeadCursor)
      (hbeside : disk.shardFile =
        .holds (.legacy ⟨some cursor, numbered lines⟩))
      (hhead : disk.head = .absent)
      (hlines : ∀ line ∈ lines, OneLine line)
      (hcount : cursor.nextSeq = lines.length) :
      Mirrors files disk ⟨some cursor, numbered lines⟩
  | fresh (disk : ShardDisk) (beside : Beside)
      (hbeside : readBeside files disk.shardFile = .ok beside)
      (hspent : beside.converts = false)
      (hhead : disk.head = .absent)
      (hlog : disk.log.getD [] = []) :
      Mirrors files disk {}

variable {files : ShardFiles}

/-- The records a section with or without history is shown. -/
def shown (history : Bool) (records : List StoredRecord) :
    List StoredRecord :=
  if history then records else []

theorem all_zip_of_isPrefix {left right : List StoredRecord}
    (h : left.map StoredRecord.recordJson <+:
      right.map StoredRecord.recordJson) :
    (left.zip right).all (fun pair =>
      pair.1.recordJson == pair.2.recordJson) = true := by
  induction left generalizing right with
  | nil => rfl
  | cons first rest ih =>
      cases right with
      | nil => simp at h
      | cons other others =>
          rw [List.map_cons, List.map_cons, List.cons_prefix_cons] at h
          rw [List.zip_cons_cons, List.all_cons, ih h.2, h.1]
          simp

theorem refuseUnlessPrefix_ok {log : Option Bytes} {head : FileHead}
    {lines : List String} {old : LegacyShard}
    (hread : readLog files log head = .ok (numbered lines))
    (hold : old.records.map StoredRecord.recordJson <+: lines) :
    refuseUnlessPrefix files log head old = .ok () := by
  have hlength : old.records.length ≤ lines.length := by
    simpa using hold.length_le
  have hall : (old.records.zip (numbered lines)).all (fun pair =>
      pair.1.recordJson == pair.2.recordJson) = true :=
    all_zip_of_isPrefix (by rwa [numbered_map_recordJson])
  simp [refuseUnlessPrefix, hread, bind, Except.bind, hlength, hall]

/-- An earlier-layout shard without a cursor has no records. -/
theorem legacy_empty {file : Stored ShardFile} {old : LegacyShard}
    (hbeside : readBeside files file = .ok (.earlier old))
    (hconverts : (Beside.earlier old).converts = false) :
    old = ⟨none, []⟩ := by
  have hcursor : old.cursor = none := by
    simpa [Beside.converts] using hconverts
  unfold readBeside at hbeside
  split at hbeside
  case h_4 other =>
    split at hbeside
    case isTrue => cases hbeside
    case isFalse hrecords =>
      cases hbeside
      have hnil : old.records = [] := by
        simpa [hcursor] using hrecords
      cases old
      simp_all
  all_goals cases hbeside

section Load

variable {disk : ShardDisk} {beside : Beside} {lines : List String}

theorem load_headed {tail : Bytes} {cursor : Option HeadCursor}
    (hbeside : readBeside files disk.shardFile = .ok beside)
    (hspent : beside.Spent lines)
    (hhead : disk.head = .holds ⟨cursor, (logBytes lines).length⟩)
    (hlog : disk.log.getD [] = logBytes lines ++ tail)
    (hlines : ∀ line ∈ lines, OneLine line)
    (hcount : countOf cursor = lines.length) (history : Bool) :
    load files disk history = .ok
      ⟨some ⟨cursor, (logBytes lines).length⟩, beside,
        shown history (numbered lines)⟩ := by
  have hread := readLog_logBytes files hlines hlog hcount
  simp only [load, hbeside, hhead, readHead, bind, Except.bind]
  cases beside with
  | missing => cases history <;> simp [shown, hread, pure, Except.pure]
  | marker => cases history <;> simp [shown, hread, pure, Except.pure]
  | earlier old =>
      cases history <;>
        simp [shown, hread, refuseUnlessPrefix_ok hread hspent, pure,
          Except.pure]

theorem load_converting {cursor : HeadCursor} {records : List StoredRecord}
    (hbeside : disk.shardFile = .holds (.legacy ⟨some cursor, records⟩))
    (hhead : disk.head = .absent) (history : Bool) :
    load files disk history = .ok
      ⟨none, .earlier ⟨some cursor, records⟩, shown history records⟩ := by
  cases history <;>
    simp [load, hbeside, hhead, readBeside, readHead, refuseOrphanLog,
      Beside.converts, shown, bind, Except.bind, pure, Except.pure]

theorem load_fresh (hbeside : readBeside files disk.shardFile = .ok beside)
    (hspent : beside.converts = false) (hhead : disk.head = .absent)
    (hlog : disk.log.getD [] = []) (history : Bool) :
    load files disk history = .ok ⟨none, beside, []⟩ := by
  have horphan : refuseOrphanLog files disk.log beside = .ok () := by
    simp [refuseOrphanLog, hspent, hlog]
  simp only [load, hbeside, hhead, readHead, bind, Except.bind, horphan,
    pure, Except.pure]
  cases beside with
  | missing => rfl
  | marker => rfl
  | earlier old =>
      rw [legacy_empty hbeside hspent]
      cases history <;> rfl

theorem cursor_of_not_converts {records : List StoredRecord}
    (hbeside : readBeside files disk.shardFile = .ok beside)
    (hspent : beside.converts = false) :
    Loaded.cursor ⟨none, beside, records⟩ = none := by
  cases beside with
  | missing => rfl
  | marker => rfl
  | earlier old =>
      rw [legacy_empty hbeside hspent]
      rfl

end Load

/-- A mirroring disk loads as the shard. -/
theorem Mirrors.load {disk : ShardDisk} {shard : Shard}
    (hmirrors : Mirrors files disk shard) (history : Bool) :
    ∃ loaded, Decern.load files disk history = .ok loaded ∧
      loaded.cursor = shard.cursor ∧
      loaded.records = shown history shard.records := by
  cases hmirrors with
  | headed beside lines tail cursor hbeside hspent hhead hlog hlines hcount =>
      exact ⟨_, load_headed hbeside hspent hhead hlog hlines hcount history,
        rfl, rfl⟩
  | converting lines cursor hbeside hhead hlines hcount =>
      exact ⟨_, load_converting hbeside hhead history, rfl, rfl⟩
  | fresh beside hbeside hspent hhead hlog =>
      exact ⟨_, load_fresh hbeside hspent hhead hlog history,
        cursor_of_not_converts hbeside hspent, by cases history <;> rfl⟩

/-! ## The steps of an append to the log -/

theorem writeLines_eq {lines : List String}
    (hlines : ∀ line ∈ lines, OneLine line) (written : ℕ) :
    writeLines written lines =
      ((logBytes lines).map DiskStep.writeLog ++ [.syncLog],
        .ok (written + (logBytes lines).length)) := by
  induction lines generalizing written with
  | nil => rfl
  | cons line rest ih =>
      have hline : '\n' ∉ line.toList := hlines line (by simp)
      have hrest := ih (fun other hother => hlines other (by simp [hother]))
        (written + (ByteText.encode line).length + 1)
      have hbytes : logBytes (line :: rest) =
          ByteText.encode line ++ [newline] ++ logBytes rest := by
        rw [← logBytes_singleton, ← logBytes_append]
        rfl
      rw [writeLines, if_neg hline, hrest, hbytes]
      simp [lineSteps]
      omega

/-- The steps that put lines after the first bytes of a log. -/
def logSteps (log : Option Bytes) (kept : Bytes) (lines : List String) :
    List DiskStep :=
  .createLog ::
    ((if (log.getD []).length > kept.length then
        [DiskStep.truncateLog kept.length] else []) ++
      ((logBytes lines).map DiskStep.writeLog ++ [.syncLog]))

theorem appendLog_eq {log : Option Bytes} {kept tail : Bytes}
    {lines : List String} (hlog : log.getD [] = kept ++ tail)
    (hkept : kept = [] ∨ kept.getLast? = some newline)
    (hlines : ∀ line ∈ lines, OneLine line) :
    appendLog files log kept.length lines =
      (logSteps log kept lines,
        .ok (kept.length + (logBytes lines).length)) := by
  have hlen : ¬ (log.getD []).length < kept.length := by
    rw [hlog, List.length_append]
    omega
  have hend : ¬ (0 < kept.length ∧
      (log.getD [])[kept.length - 1]? ≠ some newline) := by
    rintro ⟨hpos, hne⟩
    apply hne
    rcases hkept with rfl | hlast
    · cases hpos
    · rw [hlog, List.getElem?_append_left (by omega),
        ← List.getLast?_eq_getElem?]
      exact hlast
  simp only [appendLog, if_neg hlen, if_neg hend, writeLines_eq hlines,
    logSteps]

/-- A step that leaves the first bytes of the log as they are. -/
def KeepsLog (kept : ℕ) : DiskStep → Prop
  | .createLog => True
  | .truncateLog len => len = kept
  | .writeLog _ => True
  | .syncLog => True
  | _ => False

theorem keepsLog_logSteps (log : Option Bytes) (kept : Bytes)
    (lines : List String) :
    ∀ step ∈ logSteps log kept lines, KeepsLog kept.length step := by
  intro step hstep
  simp only [logSteps, List.mem_cons, List.mem_append, List.mem_map] at hstep
  rcases hstep with rfl | hcut | ⟨byte, -, rfl⟩ | rfl | hnil
  · trivial
  · split at hcut
    case isTrue =>
      rw [List.mem_singleton] at hcut
      subst hcut
      rfl
    case isFalse => cases hcut
  · trivial
  · trivial
  · cases hnil

/-- A disk that differs from another in what follows the first bytes of its
log. -/
structure SameKept (kept : Bytes) (before after : ShardDisk) : Prop where
  shardFile : after.shardFile = before.shardFile
  head : after.head = before.head
  log : ∃ tail, after.log.getD [] = kept ++ tail

theorem SameKept.step {kept : Bytes} {before disk : ShardDisk}
    (hsame : SameKept kept before disk) {step : DiskStep}
    (hstep : KeepsLog kept.length step) :
    SameKept kept before (disk.take step) := by
  obtain ⟨hshardFile, hhead, tail, htail⟩ := hsame
  cases step with
  | mark => cases hstep
  | writeHead head => cases hstep
  | createLog => exact ⟨hshardFile, hhead, tail, by simpa [ShardDisk.take]⟩
  | truncateLog len =>
      refine ⟨hshardFile, hhead, [], ?_⟩
      cases hlog : disk.log with
      | none =>
          rw [hlog] at htail
          have hnil : kept = [] := by
            simpa using (List.append_eq_nil_iff.mp htail.symm).1
          simp [ShardDisk.take, hlog, hnil]
      | some bytes =>
          rw [hlog] at htail
          simp only [Option.getD_some] at htail
          have hlen : len = kept.length := hstep
          simp [ShardDisk.take, hlog, htail, hlen]
  | writeLog byte =>
      cases hlog : disk.log with
      | none =>
          rw [hlog] at htail
          exact ⟨hshardFile, hhead, tail, by
            simpa [ShardDisk.take, hlog] using htail⟩
      | some bytes =>
          rw [hlog] at htail
          simp only [Option.getD_some] at htail
          exact ⟨hshardFile, hhead, tail ++ [byte], by
            simp [ShardDisk.take, hlog, htail]⟩
  | syncLog => exact ⟨hshardFile, hhead, tail, htail⟩

theorem sameKept_run {kept tail : Bytes} {disk : ShardDisk}
    (hlog : disk.log.getD [] = kept ++ tail) {steps : List DiskStep}
    (hsteps : ∀ step ∈ steps, KeepsLog kept.length step) :
    SameKept kept disk (disk.run steps) :=
  StateRun.run_preserves ShardDisk.take
    (fun _ _ hsame hstep => hsame.step hstep) ⟨rfl, rfl, tail, hlog⟩ hsteps

theorem run_writeLog (disk : ShardDisk) {bytes more : Bytes}
    (hlog : disk.log = some bytes) :
    disk.run (more.map DiskStep.writeLog) =
      { disk with log := some (bytes ++ more) } := by
  induction more generalizing disk bytes with
  | nil =>
      cases disk
      simp_all [ShardDisk.run]
  | cons byte rest ih =>
      have hnext : (disk.take (.writeLog byte)).log =
          some (bytes ++ [byte]) := by
        simp [ShardDisk.take, hlog]
      have hrest := ih (disk.take (.writeLog byte)) hnext
      rw [List.map_cons, ShardDisk.run, List.foldl_cons]
      rw [ShardDisk.run] at hrest
      rw [hrest]
      simp [ShardDisk.take]

/-- All the steps together leave the kept bytes and the new lines. -/
theorem run_logSteps {disk : ShardDisk} {kept tail : Bytes}
    (hlog : disk.log.getD [] = kept ++ tail) (lines : List String) :
    disk.run (logSteps disk.log kept lines) =
      { disk with log := some (kept ++ logBytes lines) } := by
  have hrun : ∀ (disk : ShardDisk) (left right : List DiskStep),
      disk.run (left ++ right) = (disk.run left).run right :=
    fun disk left right => by simp [ShardDisk.run]
  have hstart : (disk.run [.createLog]).run
      (if (disk.log.getD []).length > kept.length then
        [DiskStep.truncateLog kept.length] else []) =
      { disk with log := some kept } := by
    split
    case isTrue =>
      simp [ShardDisk.run, ShardDisk.take, hlog]
    case isFalse hle =>
      have htail : tail = [] := by
        rw [hlog, List.length_append] at hle
        exact List.length_eq_zero_iff.mp (by omega)
      simp [ShardDisk.run, ShardDisk.take, hlog, htail]
  have hsplit : logSteps disk.log kept lines =
      [.createLog] ++ ((if (disk.log.getD []).length > kept.length then
        [DiskStep.truncateLog kept.length] else []) ++
      ((logBytes lines).map DiskStep.writeLog ++ [.syncLog])) := rfl
  rw [hsplit, hrun, hrun, hrun, hstart, run_writeLog _ rfl]
  rfl

/-! ## Commits step by step -/

/-- However few of the steps are taken, the disk mirrors the shard. -/
def Through (files : ShardFiles) (disk : ShardDisk) (shard : Shard)
    (steps : List DiskStep) : Prop :=
  ∀ count, Mirrors files (disk.run (steps.take count)) shard

section Through

variable {disk : ShardDisk} {shard : Shard}

theorem Through.finish {steps : List DiskStep}
    (hsteps : Through files disk shard steps) :
    Mirrors files (disk.run steps) shard := by
  have hall := hsteps steps.length
  rwa [List.take_length] at hall

theorem Through.nil (hmirrors : Mirrors files disk shard) :
    Through files disk shard [] := by
  intro count
  rwa [List.take_nil]

theorem Through.cons {step : DiskStep} {rest : List DiskStep}
    (hmirrors : Mirrors files disk shard)
    (hrest : Through files (disk.take step) shard rest) :
    Through files disk shard (step :: rest) := by
  intro count
  cases count with
  | zero => exact hmirrors
  | succ count => exact hrest count

theorem run_append (disk : ShardDisk) (left right : List DiskStep) :
    disk.run (left ++ right) = (disk.run left).run right := by
  simp [ShardDisk.run]

theorem Through.append {left right : List DiskStep}
    (hleft : Through files disk shard left)
    (hright : Through files (disk.run left) shard right) :
    Through files disk shard (left ++ right) := by
  intro count
  rw [List.take_append]
  by_cases hcount : count ≤ left.length
  · rw [Nat.sub_eq_zero_of_le hcount, List.take_zero, List.append_nil]
    exact hleft count
  · rw [List.take_of_length_le (Nat.le_of_not_le hcount), run_append]
    exact hright _

/-- A commit: however few of its steps are taken, the disk mirrors the old
shard or the new, and the new once all are. -/
structure Commits (files : ShardFiles) (disk : ShardDisk)
    (old new : Shard) (steps : List DiskStep) : Prop where
  anywhere : ∀ count, Mirrors files (disk.run (steps.take count)) old ∨
    Mirrors files (disk.run (steps.take count)) new
  whole : Mirrors files (disk.run steps) new

theorem Commits.of_through {old new : Shard}
    {before after : List DiskStep} {step : DiskStep}
    (hbefore : Through files disk old before)
    (hafter : Through files ((disk.run before).take step) new after) :
    Commits files disk old new (before ++ step :: after) := by
  constructor
  · intro count
    rw [List.take_append]
    by_cases hcount : count ≤ before.length
    · rw [Nat.sub_eq_zero_of_le hcount, List.take_zero, List.append_nil]
      exact Or.inl (hbefore count)
    · obtain ⟨more, hmore⟩ : ∃ more, count - before.length = more + 1 :=
        ⟨count - before.length - 1, by omega⟩
      rw [List.take_of_length_le (Nat.le_of_not_le hcount), run_append,
        hmore]
      exact Or.inr (hafter more)
  · rw [run_append]
    exact hafter.finish

end Through

/-- The shard with one more record. -/
theorem commit_numbered {lines : List String} {old : Option HeadCursor}
    {cursor : HeadCursor} {record : String}
    (hcursor : cursor.nextSeq = lines.length + 1) :
    Shard.commit ⟨old, numbered lines⟩ cursor record =
      ⟨some cursor, numbered (lines ++ [record])⟩ := by
  rw [numbered_append_singleton, Shard.commit, hcursor]
  rfl

theorem Beside.Spent.append {beside : Beside} {lines : List String}
    (hspent : beside.Spent lines) (more : List String) :
    beside.Spent (lines ++ more) := by
  cases beside with
  | missing => trivial
  | marker => trivial
  | earlier old => exact List.IsPrefix.trans hspent (List.prefix_append _ _)

theorem getLast?_logBytes (lines : List String) :
    logBytes lines = [] ∨ (logBytes lines).getLast? = some newline := by
  cases lines using List.reverseRecOn with
  | nil => exact Or.inl rfl
  | append_singleton rest line =>
      right
      rw [logBytes_append, logBytes_singleton]
      simp

section Commit

variable {disk : ShardDisk} {lines : List String} {record : String}
  {cursor : HeadCursor}

/-- From a head on, a record is written past the committed length and then
committed. -/
theorem commits_headed {beside : Beside} {tail : Bytes}
    {old : Option HeadCursor}
    (hbeside : readBeside files disk.shardFile = .ok beside)
    (hspent : beside.Spent lines)
    (hhead : disk.head = .holds ⟨old, (logBytes lines).length⟩)
    (hlog : disk.log.getD [] = logBytes lines ++ tail)
    (hlines : ∀ line ∈ lines, OneLine line)
    (hcount : countOf old = lines.length) (hrecord : OneLine record)
    (hcursor : cursor.nextSeq = lines.length + 1) :
    Commits files disk ⟨old, numbered lines⟩
      ⟨some cursor, numbered (lines ++ [record])⟩
      (logSteps disk.log (logBytes lines) [record] ++
        .writeHead ⟨some cursor,
          (logBytes lines).length + (logBytes [record]).length⟩ :: []) := by
  have hmore : ∀ line ∈ lines ++ [record], OneLine line := by
    intro line hline
    rcases List.mem_append.mp hline with hold | hnew
    · exact hlines line hold
    · rw [List.mem_singleton] at hnew
      rwa [hnew]
  apply Commits.of_through
  · intro count
    obtain ⟨hshardFile, hheadSame, left, hleft⟩ :=
      sameKept_run hlog fun step hstep =>
        keepsLog_logSteps disk.log (logBytes lines) [record] step
          (List.mem_of_mem_take (i := count) hstep)
    exact .headed _ beside lines left old (by rw [hshardFile, hbeside])
      hspent (by rw [hheadSame, hhead]) hleft hlines hcount
  · apply Through.nil
    rw [run_logSteps hlog]
    refine .headed _ beside (lines ++ [record]) [] (some cursor) hbeside
      (hspent.append _) ?_ ?_ hmore ?_
    · simp [ShardDisk.take]
    · simp [ShardDisk.take]
    · simp [countOf, hcursor]

/-- A marker that is missing is written first. -/
theorem through_markSteps {beside : Beside} {shard : Shard}
    (hmirrors : Mirrors files disk shard)
    (hmarked : Mirrors files (disk.take .mark) shard) :
    Through files disk shard (markSteps beside) := by
  cases beside with
  | marker => exact Through.nil hmirrors
  | missing => exact Through.cons hmirrors (Through.nil hmarked)
  | earlier old => exact Through.cons hmirrors (Through.nil hmarked)

theorem run_markSteps {beside : Beside}
    (hbeside : readBeside files disk.shardFile = .ok beside) :
    disk.run (markSteps beside) = disk.take .mark := by
  cases beside with
  | marker =>
      have hmoved : disk.shardFile = .holds .moved := by
        unfold readBeside at hbeside
        split at hbeside
        case h_1 => cases hbeside
        case h_2 hmoved => exact hmoved
        case h_3 => cases hbeside
        case h_4 => split at hbeside <;> cases hbeside
      cases disk
      simp_all [markSteps, ShardDisk.run, ShardDisk.take]
  | missing => rfl
  | earlier old => rfl

theorem Commits.after {old new : Shard} {before steps : List DiskStep}
    (hbefore : Through files disk old before)
    (hsteps : Commits files (disk.run before) old new steps) :
    Commits files disk old new (before ++ steps) := by
  constructor
  · intro count
    rw [List.take_append]
    by_cases hcount : count ≤ before.length
    · rw [Nat.sub_eq_zero_of_le hcount, List.take_zero, List.append_nil]
      exact Or.inl (hbefore count)
    · rw [List.take_of_length_le (Nat.le_of_not_le hcount), run_append]
      exact hsteps.anywhere _
  · rw [run_append]
    exact hsteps.whole

end Commit

/-- The commit of one more record, on a disk that mirrors a shard. -/
theorem Mirrors.commit {disk : ShardDisk} {shard : Shard}
    (hmirrors : Mirrors files disk shard) {history : Bool} {loaded : Loaded}
    (hload : Decern.load files disk history = .ok loaded)
    {cursor : HeadCursor} {record : String} (hrecord : OneLine record)
    (hcursor : cursor.nextSeq = countOf shard.cursor + 1) :
    ∃ steps, commitSteps files disk.log loaded cursor record =
        (steps, .ok ()) ∧
      Commits files disk shard (shard.commit cursor record) steps := by
  have hone : ∀ line ∈ [record], OneLine line := by simpa using hrecord
  cases hmirrors with
  | headed beside lines tail old hbeside hspent hhead hlog hlines hcount =>
      have hsame := load_headed hbeside hspent hhead hlog hlines hcount
        history
      rw [hsame] at hload
      cases hload
      rw [hcount] at hcursor
      have happend : appendLog files disk.log (logBytes lines).length
          [record] = _ :=
        appendLog_eq hlog (getLast?_logBytes lines) hone
      refine ⟨markSteps beside ++
        (logSteps disk.log (logBytes lines) [record] ++
          [.writeHead ⟨some cursor,
            (logBytes lines).length + (logBytes [record]).length⟩]), ?_, ?_⟩
      · simp only [commitSteps, happend]
        rw [List.append_assoc]
      · rw [commit_numbered hcursor]
        apply Commits.after
        · apply through_markSteps
          · exact .headed disk beside lines tail old hbeside hspent hhead hlog
              hlines hcount
          · exact .headed _ .marker lines tail old rfl trivial hhead hlog
              hlines hcount
        · rw [run_markSteps hbeside]
          have hmarked : readBeside files (disk.take .mark).shardFile =
              .ok .marker := rfl
          exact commits_headed hmarked trivial hhead hlog hlines hcount
            hrecord hcursor
  | converting lines old hbeside hhead hlines hcount =>
      rw [load_converting hbeside hhead history] at hload
      cases hload
      have hcursor' : cursor.nextSeq = lines.length + 1 := by
        rw [hcursor, countOf, Option.map_some, Option.getD_some, hcount]
      have hmore : ∀ line ∈ lines ++ [record], OneLine line := by
        intro line hline
        rcases List.mem_append.mp hline with hold | hnew
        · exact hlines line hold
        · exact hone line hnew
      have happend : appendLog files disk.log 0 (lines ++ [record]) =
          (logSteps disk.log [] (lines ++ [record]),
            .ok (logBytes (lines ++ [record])).length) := by
        have hsteps : appendLog files disk.log ([] : Bytes).length
            (lines ++ [record]) = _ :=
          appendLog_eq (List.nil_append _).symm (Or.inl rfl) hmore
        simpa using hsteps
      refine ⟨logSteps disk.log [] (lines ++ [record]) ++
        .writeHead ⟨some cursor, (logBytes (lines ++ [record])).length⟩ ::
          [.mark], ?_, ?_⟩
      · simp only [commitSteps, Option.isSome_some, if_true,
          numbered_map_recordJson, happend, List.nil_append]
      · rw [commit_numbered hcursor']
        apply Commits.of_through
        · intro count
          have hnone : disk.log.getD [] = ([] : Bytes) ++ disk.log.getD [] :=
            rfl
          obtain ⟨hshardFile, hheadSame, -⟩ := sameKept_run hnone
              fun step hstep => keepsLog_logSteps disk.log []
                (lines ++ [record]) step
                (List.mem_of_mem_take (i := count) hstep)
          exact .converting _ lines old (by rw [hshardFile, hbeside])
            (by rw [hheadSame, hhead]) hlines hcount
        · rw [run_logSteps (List.nil_append _).symm]
          have hspent : (Beside.earlier ⟨some old, numbered lines⟩).Spent
              (lines ++ [record]) := by
            rw [Beside.Spent, numbered_map_recordJson]
            exact List.prefix_append _ _
          have hbesideOk : readBeside files disk.shardFile =
              .ok (.earlier ⟨some old, numbered lines⟩) := by
            rw [hbeside]
            rfl
          have hcountNew : countOf (some cursor) =
              (lines ++ [record]).length := by
            simp [countOf, hcursor']
          apply Through.cons
          · exact .headed _ _ (lines ++ [record]) [] (some cursor) hbesideOk
              hspent rfl (by simp [ShardDisk.take]) hmore hcountNew
          · apply Through.nil
            exact .headed _ .marker (lines ++ [record]) [] (some cursor) rfl
              trivial rfl (by simp [ShardDisk.take]) hmore hcountNew
  | fresh beside hbeside hspent hhead hlog =>
      rw [load_fresh hbeside hspent hhead hlog history] at hload
      cases hload
      have happend : appendLog files disk.log 0 [record] =
          (logSteps disk.log [] [record],
            .ok (0 + (logBytes [record]).length)) :=
        appendLog_eq hlog (Or.inl rfl) hone
      refine ⟨(markSteps beside ++ [.writeHead .empty]) ++
        (logSteps disk.log [] [record] ++
          [.writeHead ⟨some cursor, 0 + (logBytes [record]).length⟩]),
        ?_, ?_⟩
      · simp only [commitSteps]
        cases beside with
        | missing => simp only [happend, List.append_assoc]
        | marker => simp only [happend, List.append_assoc]
        | earlier old =>
            rw [legacy_empty hbeside hspent]
            simp only [happend, List.append_assoc]
            rfl
      · have hempty : Mirrors files ((disk.take .mark).take
            (.writeHead .empty)) {} :=
          .headed _ .marker [] [] none rfl trivial rfl hlog (by simp) rfl
        apply Commits.after
        · apply Through.append
          · apply through_markSteps
            · exact .fresh disk beside hbeside hspent hhead hlog
            · exact .fresh _ .marker rfl rfl hhead hlog
          · rw [run_markSteps hbeside]
            apply Through.cons
            · exact .fresh _ .marker rfl rfl hhead hlog
            · exact Through.nil hempty
        · rw [run_append, run_markSteps hbeside]
          have hnew : Shard.commit {} cursor record =
              ⟨some cursor, numbered ([] ++ [record])⟩ :=
            @commit_numbered [] none cursor record hcursor
          rw [hnew]
          have hmarked : readBeside files ((disk.take .mark).take
              (.writeHead .empty)).shardFile = .ok .marker := rfl
          have hnil : ((disk.take .mark).take
              (.writeHead .empty)).log.getD [] = logBytes [] ++ [] := hlog
          exact commits_headed hmarked trivial rfl hnil (by simp) rfl hrecord
            hcursor

end Decern
