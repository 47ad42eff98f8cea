import Decern.ShardListingRuns
import Mathlib.Tactic

/-!
# The listing against its writers

A writer holds its shard's lock and takes the steps of a commit, to the end or
until it stops; the listing holds none.  No step takes the cursor away from
where the listing finds it.
-/

namespace Decern

open ByteText (Bytes)

/-! ## What no step takes away -/

/-- A head with a cursor, over a log that holds what it commits. -/
def ShardDisk.Headed (disk : ShardDisk) : Prop :=
  ∃ head cursor, disk.head = .holds head ∧ head.cursor = some cursor ∧
    0 < head.logLen ∧ head.logLen ≤ (disk.log.getD []).length

/-- An earlier layout with a cursor, and no head yet. -/
def ShardDisk.Converting (disk : ShardDisk) : Prop :=
  ∃ old cursor, disk.head = .absent ∧
    disk.shardFile = .holds (.legacy old) ∧ old.cursor = some cursor

/-- The earlier layout with its cursor, or the marker put in its place. -/
def ShardDisk.Told (disk : ShardDisk) : Prop :=
  (∃ old cursor, disk.shardFile = .holds (.legacy old) ∧
    old.cursor = some cursor) ∨ disk.shardFile = .holds .moved

structure KeepsCursor (disk next : ShardDisk) : Prop where
  headed : disk.Headed → next.Headed
  converting : disk.Converting → next.Converting ∨ next.Headed
  told : disk.Told → next.Told

theorem KeepsCursor.refl (disk : ShardDisk) : KeepsCursor disk disk :=
  ⟨id, Or.inl, id⟩

theorem KeepsCursor.trans {first second third : ShardDisk}
    (hfirst : KeepsCursor first second) (hsecond : KeepsCursor second third) :
    KeepsCursor first third where
  headed hheaded := hsecond.headed (hfirst.headed hheaded)
  converting hconverting := by
    rcases hfirst.converting hconverting with hconverting | hheaded
    · exact hsecond.converting hconverting
    · exact Or.inr (hsecond.headed hheaded)
  told htold := hsecond.told (hfirst.told htold)

theorem told_take {disk : ShardDisk} (step : DiskStep) (htold : disk.Told) :
    (disk.take step).Told := by
  cases step with
  | mark => exact Or.inr rfl
  | writeHead head => exact htold
  | createLog => exact htold
  | truncateLog len => exact htold
  | writeLog byte => exact htold
  | syncLog => exact htold

/-- Every step keeps what it finds. -/
def Steady : ShardDisk → List DiskStep → Prop
  | _, [] => True
  | disk, step :: rest =>
      KeepsCursor disk (disk.take step) ∧ Steady (disk.take step) rest

theorem steady_append {disk : ShardDisk} {left right : List DiskStep} :
    Steady disk (left ++ right) ↔
      Steady disk left ∧ Steady (disk.run left) right := by
  induction left generalizing disk with
  | nil => simp [Steady, ShardDisk.run]
  | cons step rest ih =>
      have hrun : disk.run (step :: rest) = (disk.take step).run rest := rfl
      rw [List.cons_append, Steady, Steady, ih, hrun, and_assoc]

/-! ## Steps on the log -/

section LogSteps

variable {disk : ShardDisk} {kept : ℕ} {step : DiskStep}
  {steps : List DiskStep}

theorem files_of_keepsLog (disk : ShardDisk) (hstep : KeepsLog kept step) :
    (disk.take step).head = disk.head ∧
      (disk.take step).shardFile = disk.shardFile := by
  cases step with
  | mark => cases hstep
  | writeHead head => cases hstep
  | createLog => exact ⟨rfl, rfl⟩
  | truncateLog len => exact ⟨rfl, rfl⟩
  | writeLog byte => exact ⟨rfl, rfl⟩
  | syncLog => exact ⟨rfl, rfl⟩

theorem length_of_keepsLog {least : ℕ} (hstep : KeepsLog kept step)
    (hkept : least ≤ kept) (hlog : least ≤ (disk.log.getD []).length) :
    least ≤ ((disk.take step).log.getD []).length := by
  cases step with
  | mark => cases hstep
  | writeHead head => cases hstep
  | createLog => simpa [ShardDisk.take] using hlog
  | truncateLog len =>
      have hlen : len = kept := hstep
      cases hbytes : disk.log with
      | none =>
          rw [hbytes] at hlog
          simpa [ShardDisk.take, hbytes] using hlog
      | some bytes =>
          rw [hbytes] at hlog
          simp only [Option.getD_some] at hlog
          simp only [ShardDisk.take, hbytes, Option.map_some,
            Option.getD_some, List.length_take]
          omega
  | writeLog byte =>
      cases hbytes : disk.log with
      | none =>
          rw [hbytes] at hlog
          simpa [ShardDisk.take, hbytes] using hlog
      | some bytes =>
          rw [hbytes] at hlog
          simp only [Option.getD_some] at hlog
          simp only [ShardDisk.take, hbytes, Option.map_some,
            Option.getD_some, List.length_append]
          omega
  | syncLog => exact hlog

theorem keeps_of_keepsLog (hstep : KeepsLog kept step)
    (hhead : ∀ head, disk.head = .holds head → head.logLen ≤ kept) :
    KeepsCursor disk (disk.take step) := by
  obtain ⟨hsameHead, hsameFile⟩ := files_of_keepsLog disk hstep
  refine ⟨?_, ?_, told_take step⟩
  · rintro ⟨head, cursor, hholds, hcursor, hpos, hlen⟩
    exact ⟨head, cursor, hsameHead.trans hholds, hcursor, hpos,
      length_of_keepsLog hstep (hhead head hholds) hlen⟩
  · rintro ⟨old, cursor, habsent, hfile, hcursor⟩
    exact Or.inl ⟨old, cursor, hsameHead.trans habsent,
      hsameFile.trans hfile, hcursor⟩

theorem steady_of_keepsLog (hsteps : ∀ step ∈ steps, KeepsLog kept step)
    (hhead : ∀ head, disk.head = .holds head → head.logLen ≤ kept) :
    Steady disk steps := by
  induction steps generalizing disk with
  | nil => trivial
  | cons step rest ih =>
      have hstep := hsteps step (by simp)
      refine ⟨keeps_of_keepsLog hstep hhead, ih ?_ ?_⟩
      · exact fun other hother => hsteps other (by simp [hother])
      · rw [(files_of_keepsLog disk hstep).1]
        exact hhead

end LogSteps

section Appending

variable {files : ShardFiles} {lines : List String} {written logLen : ℕ}

theorem keepsLog_writeLines (kept : ℕ) :
    ∀ step ∈ (writeLines written lines).1, KeepsLog kept step := by
  induction lines generalizing written with
  | nil =>
      intro step hstep
      rw [writeLines, List.mem_singleton] at hstep
      subst hstep
      trivial
  | cons line rest ih =>
      intro step hstep
      rw [writeLines] at hstep
      split at hstep
      case isTrue => cases hstep
      case isFalse =>
        rcases List.mem_append.mp hstep with hline | hrest
        · obtain ⟨byte, _, rfl⟩ := List.mem_map.mp hline
          trivial
        · exact ih step hrest

theorem keepsLog_appendLog (log : Option Bytes) (committed : ℕ) :
    ∀ step ∈ (appendLog files log committed lines).1,
      KeepsLog committed step := by
  intro step hstep
  unfold appendLog at hstep
  dsimp only at hstep
  split at hstep
  case isTrue =>
    rw [List.mem_singleton.mp hstep]
    trivial
  case isFalse =>
    split at hstep
    case isTrue =>
      rw [List.mem_singleton.mp hstep]
      trivial
    case isFalse =>
      simp only [List.mem_cons, List.mem_append] at hstep
      rcases hstep with rfl | hcut | hwrite
      · trivial
      · split at hcut
        case isTrue =>
          rw [List.mem_singleton.mp hcut]
          rfl
        case isFalse => cases hcut
      · exact keepsLog_writeLines committed step hwrite

/-- Lines written whole lengthen the log by what they count. -/
theorem run_writeLines {disk : ShardDisk} {bytes : Bytes}
    (hlog : disk.log = some bytes)
    (hok : (writeLines written lines).2 = .ok logLen) :
    written + lines.length ≤ logLen ∧
      ((disk.run (writeLines written lines).1).log.getD []).length + written =
        bytes.length + logLen := by
  induction lines generalizing disk bytes written with
  | nil =>
      rw [writeLines] at hok ⊢
      cases hok
      simp [ShardDisk.run, ShardDisk.take, hlog]
  | cons line rest ih =>
      rw [writeLines] at hok ⊢
      by_cases hline : '\n' ∈ line.toList
      · rw [if_pos hline] at hok
        cases hok
      · rw [if_neg hline] at hok ⊢
        have hsteps : disk.run ((ByteText.encode line ++
            [ByteText.newline]).map DiskStep.writeLog) = { disk with
              log := some (bytes ++ (ByteText.encode line ++
                [ByteText.newline])) } :=
          run_writeLog disk hlog
        obtain ⟨hcount, hlength⟩ := ih (show ShardDisk.log { disk with
          log := some (bytes ++ (ByteText.encode line ++
            [ByteText.newline])) } = some _ from rfl) hok
        constructor
        · simp only [List.length_cons]
          omega
        · rw [run_append, lineSteps, hsteps]
          simp only [List.length_append, List.length_cons,
            List.length_nil] at hlength
          omega

/-- An append that goes through leaves the committed length in the log. -/
theorem run_appendLog {disk : ShardDisk} {committed : ℕ}
    (hok : (appendLog files disk.log committed lines).2 = .ok logLen) :
    committed + lines.length ≤ logLen ∧
      logLen ≤ ((disk.run (appendLog files disk.log committed
        lines).1).log.getD []).length := by
  unfold appendLog at hok ⊢
  dsimp only at hok ⊢
  by_cases hshort : (disk.log.getD []).length < committed
  · rw [if_pos hshort] at hok
    cases hok
  rw [if_neg hshort] at hok ⊢
  by_cases hend : 0 < committed ∧
      (disk.log.getD [])[committed - 1]? ≠ some ByteText.newline
  · rw [if_pos hend] at hok
    cases hok
  rw [if_neg hend] at hok ⊢
  simp only at hok ⊢
  -- the log once it is created and cut
  obtain ⟨bytes, hbytes, hlength⟩ : ∃ bytes,
      ((disk.take .createLog).run
        (if (disk.log.getD []).length > committed then
          [DiskStep.truncateLog committed] else [])).log = some bytes ∧
      bytes.length = committed := by
    by_cases hcut : (disk.log.getD []).length > committed
    · rw [if_pos hcut]
      refine ⟨(disk.log.getD []).take committed, rfl, ?_⟩
      rw [List.length_take]
      omega
    · rw [if_neg hcut]
      exact ⟨disk.log.getD [], rfl, by omega⟩
  obtain ⟨hcount, hwritten⟩ := run_writeLines hbytes hok
  refine ⟨hcount, ?_⟩
  have hrun : ∀ (steps : List DiskStep),
      disk.run (.createLog :: steps) = (disk.take .createLog).run steps :=
    fun _ => rfl
  rw [hrun, run_append]
  omega

end Appending

/-! ## Commits -/

section Commits

variable {files : ShardFiles} {disk : ShardDisk}

theorem keeps_writeHead {cursor : HeadCursor} {logLen : ℕ}
    (hpos : 0 < logLen) (hlen : logLen ≤ (disk.log.getD []).length) :
    KeepsCursor disk (disk.take (.writeHead ⟨some cursor, logLen⟩)) := by
  have hheaded :
      (disk.take (.writeHead ⟨some cursor, logLen⟩)).Headed :=
    ⟨⟨some cursor, logLen⟩, cursor, rfl, rfl, hpos, hlen⟩
  exact ⟨fun _ => hheaded, fun _ => Or.inr hheaded, told_take _⟩

theorem keeps_mark (hnot : ¬ disk.Converting) :
    KeepsCursor disk (disk.take .mark) :=
  ⟨fun hheaded => hheaded, fun hconverting => absurd hconverting hnot,
    told_take _⟩

theorem keeps_writeEmpty (hnot : ¬ disk.Converting)
    (hhead : disk.head = .absent) :
    KeepsCursor disk (disk.take (.writeHead .empty)) := by
  refine ⟨?_, fun hconverting => absurd hconverting hnot, told_take _⟩
  rintro ⟨head, cursor, hholds, _⟩
  rw [hhead] at hholds
  cases hholds

/-- What goes before an append, the append, its head, and a marker after. -/
theorem steady_finish {before after : List DiskStep} {committed : ℕ}
    {lines : List String} {cursor : HeadCursor}
    (hbefore : Steady disk before) (hlog : (disk.run before).log = disk.log)
    (hhead : ∀ head, (disk.run before).head = .holds head →
      head.logLen ≤ committed)
    (hlines : lines ≠ []) (hafter : after = [] ∨ after = [.mark]) :
    (∀ error, (appendLog files disk.log committed lines).2 =
      .error error →
      Steady disk (before ++ (appendLog files disk.log committed lines).1)) ∧
    ∀ logLen, (appendLog files disk.log committed lines).2 = .ok logLen →
      Steady disk (before ++ (appendLog files disk.log committed lines).1 ++
        .writeHead ⟨some cursor, logLen⟩ :: after) := by
  have hkeeps : ∀ step ∈ (appendLog files disk.log committed lines).1,
      KeepsLog committed step :=
    keepsLog_appendLog disk.log committed
  have happend := steady_of_keepsLog hkeeps hhead
  refine ⟨fun _ _ => steady_append.mpr ⟨hbefore, happend⟩, ?_⟩
  intro logLen hok
  rw [← hlog] at hok
  obtain ⟨hcount, hlen⟩ := run_appendLog hok
  rw [hlog] at hlen
  have hpos : 0 < logLen := by
    have hnonempty : 0 < lines.length := List.length_pos_iff.mpr hlines
    omega
  refine steady_append.mpr ⟨steady_append.mpr ⟨hbefore, happend⟩, ?_⟩
  rw [run_append]
  refine ⟨keeps_writeHead hpos hlen, ?_⟩
  rcases hafter with rfl | rfl
  · trivial
  · refine ⟨keeps_mark ?_, trivial⟩
    rintro ⟨_, _, habsent, _⟩
    cases habsent

theorem load_eq_ok {history : Bool} {loaded : Loaded}
    (hload : load files disk history = .ok loaded) :
    readBeside files disk.shardFile = .ok loaded.beside ∧
      readHead files disk.head = .ok loaded.head := by
  unfold load at hload
  obtain ⟨beside, hbeside, hrest⟩ := Serde.bind_eq_ok.mp hload
  obtain ⟨head, hhead, hrest⟩ := Serde.bind_eq_ok.mp hrest
  cases head with
  | some found =>
      simp only at hrest
      split at hrest
      all_goals
        obtain ⟨_, _, hrecords⟩ := Serde.bind_eq_ok.mp hrest
        split at hrecords
      all_goals
        obtain ⟨_, _, hloaded⟩ := Serde.bind_eq_ok.mp hrecords
        cases hloaded
        exact ⟨hbeside, hhead⟩
  | none =>
      obtain ⟨_, _, hloaded⟩ := Serde.bind_eq_ok.mp hrest
      cases hloaded
      exact ⟨hbeside, hhead⟩

theorem not_converting_of_converts {beside : Beside}
    (hbeside : readBeside files disk.shardFile = .ok beside)
    (hconverts : beside.converts = false) : ¬ disk.Converting := by
  rintro ⟨old, cursor, _, hfile, hcursor⟩
  rw [converts_of_readBeside hbeside] at hconverts
  simp [ShardDisk.legacyCursor, hfile, hcursor] at hconverts

theorem steady_markSteps (beside : Beside) (hnot : ¬ disk.Converting) :
    Steady disk (markSteps beside) := by
  cases beside with
  | missing => exact ⟨keeps_mark hnot, trivial⟩
  | marker => trivial
  | earlier old => exact ⟨keeps_mark hnot, trivial⟩

theorem run_markSteps_same (disk : ShardDisk) (beside : Beside) :
    (disk.run (markSteps beside)).head = disk.head ∧
      (disk.run (markSteps beside)).log = disk.log := by
  cases beside <;> exact ⟨rfl, rfl⟩

/-- The new shard's steps before its first line. -/
theorem steady_newShard (beside : Beside) (hnot : ¬ disk.Converting)
    (habsent : disk.head = .absent) :
    Steady disk (markSteps beside ++ [.writeHead .empty]) ∧
      (disk.run (markSteps beside ++ [.writeHead .empty])).head =
        .holds .empty ∧
      (disk.run (markSteps beside ++ [.writeHead .empty])).log =
        disk.log := by
  obtain ⟨hhead, hlog⟩ := run_markSteps_same disk beside
  have hmarked : ¬ (disk.run (markSteps beside)).Converting := by
    cases beside with
    | marker => exact hnot
    | missing =>
        rintro ⟨_, _, _, hfile, _⟩
        cases hfile
    | earlier old =>
        rintro ⟨_, _, _, hfile, _⟩
        cases hfile
  refine ⟨steady_append.mpr ⟨steady_markSteps beside hnot, ?_, trivial⟩,
    ?_, ?_⟩
  · exact keeps_writeEmpty hmarked (hhead.trans habsent)
  · rw [run_append]
    rfl
  · rw [run_append]
    exact hlog

theorem commitSteps_steady {history : Bool} {loaded : Loaded}
    (hload : load files disk history = .ok loaded) (cursor : HeadCursor)
    (record : String) :
    Steady disk (commitSteps files disk.log loaded cursor record).1 := by
  obtain ⟨hbeside, hhead⟩ := load_eq_ok hload
  have hlines : [record] ≠ [] := by simp
  unfold commitSteps
  dsimp only
  cases hfound : loaded.head with
  | some head =>
      rw [hfound] at hhead
      have hholds : disk.head = .holds head := by
        rcases readHead_eq_ok hhead with ⟨_, hnone⟩ | ⟨found, hholds, hsome⟩
        · cases hnone
        · cases hsome
          exact hholds
      have hnot : ¬ disk.Converting := by
        rintro ⟨_, _, habsent, _⟩
        rw [hholds] at habsent
        cases habsent
      obtain ⟨hsameHead, hsameLog⟩ := run_markSteps_same disk loaded.beside
      obtain ⟨herror, hok⟩ := @steady_finish files disk
        (markSteps loaded.beside) [] head.logLen [record] cursor
        (steady_markSteps loaded.beside hnot) hsameLog
        (by
          intro other hother
          rw [hsameHead, hholds] at hother
          cases hother
          exact le_refl _) hlines (Or.inl rfl)
      simp only
      split
      case h_1 error happend => exact herror error happend
      case h_2 logLen happend => exact hok logLen happend
  | none =>
      rw [hfound] at hhead
      have habsent : disk.head = .absent := by
        rcases readHead_eq_ok hhead with ⟨habsent, _⟩ | ⟨_, _, hsome⟩
        · exact habsent
        · cases hsome
      have hnew : ∀ beside, loaded.beside = beside →
          beside.converts = false →
          (∀ error, (appendLog files disk.log 0 [record]).2 = .error error →
            Steady disk (markSteps beside ++ [.writeHead .empty] ++
              (appendLog files disk.log 0 [record]).1)) ∧
          ∀ logLen, (appendLog files disk.log 0 [record]).2 = .ok logLen →
            Steady disk (markSteps beside ++ [.writeHead .empty] ++
              (appendLog files disk.log 0 [record]).1 ++
                [.writeHead ⟨some cursor, logLen⟩]) := by
        intro beside hsame hconverts
        rw [hsame] at hbeside
        obtain ⟨hsteady, hempty, hlog⟩ := steady_newShard beside
          (not_converting_of_converts hbeside hconverts) habsent
        refine steady_finish hsteady hlog ?_ hlines (Or.inl rfl)
        intro head hholds
        rw [hempty] at hholds
        cases hholds
        exact le_refl _
      cases hkind : loaded.beside with
      | missing =>
          obtain ⟨herror, hok⟩ := hnew .missing hkind rfl
          simp only
          split
          case h_1 error happend => exact herror error happend
          case h_2 logLen happend => exact hok logLen happend
      | marker =>
          obtain ⟨herror, hok⟩ := hnew .marker hkind rfl
          simp only
          split
          case h_1 error happend => exact herror error happend
          case h_2 logLen happend => exact hok logLen happend
      | earlier old =>
          simp only
          by_cases hcursor : old.cursor.isSome = true
          · rw [if_pos hcursor]
            obtain ⟨herror, hok⟩ := @steady_finish files disk [] [.mark] 0
              (old.records.map StoredRecord.recordJson ++ [record]) cursor
              trivial rfl
              (by
                intro head hholds
                rw [show (disk.run []).head = disk.head from rfl,
                  habsent] at hholds
                cases hholds) (by simp) (Or.inr rfl)
            split
            case h_1 error happend => exact herror error happend
            case h_2 logLen happend => exact hok logLen happend
          · rw [if_neg hcursor]
            obtain ⟨herror, hok⟩ := hnew (.earlier old) hkind
              (Bool.eq_false_of_not_eq_true hcursor)
            split
            case h_1 error happend => exact herror error happend
            case h_2 logLen happend => exact hok logLen happend

theorem plan_steady (disk : ShardDisk) (part : Section) :
    Steady disk (disk.plan files part).1 := by
  unfold ShardDisk.plan
  split
  case h_1 => trivial
  case h_2 loaded hload =>
    split
    case h_1 => trivial
    case h_2 => trivial
    case h_3 cursor record _ => exact commitSteps_steady hload cursor record

end Commits

/-! ## Writers -/

/-- A shard's files, and the steps left to the writer that has its lock. -/
structure ShardWriter where
  disk : ShardDisk
  pending : List DiskStep := []

inductive WriterStep where
  | start (part : Section)
  | advance
  | stop

def ShardWriter.step (files : ShardFiles) (writer : ShardWriter) :
    WriterStep → ShardWriter
  | .start part =>
      if writer.pending = [] then
        { writer with pending := (writer.disk.plan files part).1 }
      else writer
  | .advance =>
      match writer.pending with
      | [] => writer
      | step :: rest => ⟨writer.disk.take step, rest⟩
  | .stop => { writer with pending := [] }

section Writers

variable {files : ShardFiles} {writer : ShardWriter}

theorem step_keeps (hsteady : Steady writer.disk writer.pending)
    (action : WriterStep) :
    Steady (writer.step files action).disk
        (writer.step files action).pending ∧
      KeepsCursor writer.disk (writer.step files action).disk := by
  cases action with
  | start part =>
      by_cases hquiet : writer.pending = []
      · simp only [ShardWriter.step, if_pos hquiet]
        exact ⟨plan_steady writer.disk part, KeepsCursor.refl _⟩
      · simp only [ShardWriter.step, if_neg hquiet]
        exact ⟨hsteady, KeepsCursor.refl _⟩
  | advance =>
      obtain ⟨disk, pending⟩ := writer
      cases pending with
      | nil => exact ⟨hsteady, KeepsCursor.refl _⟩
      | cons step rest => exact ⟨hsteady.2, hsteady.1⟩
  | stop => exact ⟨trivial, KeepsCursor.refl _⟩

theorem run_keeps (hsteady : Steady writer.disk writer.pending)
    (actions : List WriterStep) :
    let after := StateRun.run (ShardWriter.step files) writer actions
    Steady after.disk after.pending ∧ KeepsCursor writer.disk after.disk := by
  induction actions generalizing writer with
  | nil => exact ⟨hsteady, KeepsCursor.refl _⟩
  | cons action rest ih =>
      obtain ⟨hnext, hkeeps⟩ := @step_keeps files writer hsteady action
      obtain ⟨hafter, hrest⟩ := ih hnext
      exact ⟨hafter, hkeeps.trans hrest⟩

end Writers

/-! ## What a listing sees -/

/-- The history a reader of the shard is given. -/
def shardHistory (root : String) (text : ListingText) (disk : ShardDisk)
    (shard : String) : Except StoreError Shard := do
  let files ← filesOf root shard text.utf8Error
  disk.read files

section Histories

variable {root : String} {text : ListingText} {disk : ShardDisk}
  {shard : String} {held : Shard}

theorem read_of_shardHistory
    (hread : shardHistory root text disk shard = .ok held) :
    ∃ files, filesOf root shard text.utf8Error = .ok files ∧
      disk.read files = .ok held :=
  Serde.bind_eq_ok.mp hread

/-- A shard with a record to read has a cursor where the listing looks. -/
theorem headed_or_converting {files : ShardFiles}
    (hread : disk.read files = .ok held) (hrecords : held.records ≠ []) :
    disk.Headed ∨ disk.Converting := by
  unfold ShardDisk.read at hread
  cases hload : load files disk true with
  | error error =>
      rw [hload] at hread
      cases hread
  | ok loaded =>
      rw [hload] at hread
      cases hread
      obtain ⟨hbeside, hhead⟩ := load_eq_ok hload
      rcases readHead_eq_ok hhead with ⟨habsent, _⟩ | ⟨head, hholds, _⟩
      · obtain ⟨_, ⟨_, hempty, _⟩ | ⟨old, cursor, hold, hcursor, rfl⟩⟩ :=
          load_absent_eq_ok habsent hbeside hload
        · exact absurd hempty hrecords
        · exact Or.inr ⟨old, cursor, habsent, shardFile_of_earlier hbeside,
            hcursor⟩
      · obtain ⟨records, hlog, hloaded, _⟩ :=
          load_holds_eq_ok hholds hbeside hload
        change loaded.records ≠ [] at hrecords
        rw [hloaded] at hrecords
        obtain ⟨lines, tail, hlines, hbytes, hlen, rfl, hcount⟩ :=
          readLog_eq_ok hlog
        have hlines' : lines ≠ [] := by
          rintro rfl
          exact hrecords rfl
        have hpos : 0 < lines.length := List.length_pos_iff.mpr hlines'
        obtain ⟨cursor, hcursor⟩ : ∃ cursor, head.cursor = some cursor := by
          cases hnone : head.cursor with
          | none =>
              rw [hnone] at hcount
              simp [countOf] at hcount
              omega
          | some cursor => exact ⟨cursor, rfl⟩
        refine Or.inl ⟨head, cursor, hholds, hcursor, ?_, ?_⟩
        · rw [hlen]
          cases lines with
          | nil => exact absurd rfl hlines'
          | cons line rest => simp [logBytes]
        · rw [hbytes, List.length_append, hlen]
          omega

end Histories

/-! ## Reads between the steps -/

section Race

variable {look : Looks} {files : ShardFiles} {shard : String}
  {disks : ℕ → ShardDisk} {start turn later : ℕ} {listed : Bool}

/-- The reads of a shard find its files as writers leave them, from a turn
on. -/
structure TurnReads (look : Looks) (shard : String) (disks : ℕ → ShardDisk) :
    Prop where
  looks : ∀ turn disk, look turn shard = .ok disk → disk = disks turn
  keeps : ∀ turn, KeepsCursor (disks turn) (disks (turn + 1))

theorem TurnReads.through (hfollows : TurnReads look shard disks)
    {first second : ℕ} (hle : first ≤ second) :
    KeepsCursor (disks first) (disks second) := by
  induction second, hle using Nat.le_induction with
  | base => exact KeepsCursor.refl _
  | succ next _ ih => exact ih.trans (hfollows.keeps next)

theorem headCursor_of_headed {disk : ShardDisk} (hheaded : disk.Headed) :
    disk.headCursor.isSome = true := by
  obtain ⟨head, cursor, hholds, hcursor, _⟩ := hheaded
  simp [ShardDisk.headCursor, hholds, hcursor]

theorem legacyCursor_of_converting {disk : ShardDisk}
    (hconverting : disk.Converting) : disk.legacyCursor.isSome = true := by
  obtain ⟨old, cursor, _, hfile, hcursor⟩ := hconverting
  simp [ShardDisk.legacyCursor, hfile, hcursor]

theorem TurnReads.kept (hfollows : TurnReads look shard disks)
    (hstart : (disks start).Headed ∨ (disks start).Converting)
    (hle : start ≤ turn) :
    (disks turn).Headed ∨ (disks turn).Converting := by
  have hkeeps := hfollows.through hle
  rcases hstart with hheaded | hconverting
  · exact Or.inl (hkeeps.headed hheaded)
  · exact (hkeeps.converting hconverting).symm

/-- Judged by its head, where there is one. -/
theorem TurnReads.listed_head (hfollows : TurnReads look shard disks)
    (hstart : (disks start).Headed) (hle : start ≤ turn)
    (hlisted : headListed look files shard turn = .ok (listed, later)) :
    listed = true := by
  obtain ⟨disk, hdisk, hcursor⟩ := headListed_eq_ok hlisted
  have hheaded := (hfollows.through hle).headed hstart
  rw [← hfollows.looks turn disk hdisk] at hheaded
  rw [hcursor]
  exact headCursor_of_headed hheaded

/-- Judged by its `.shard` file: a conversion that ends between the reads
leaves the marker, and by then the head. -/
theorem TurnReads.listed_shard (hfollows : TurnReads look shard disks)
    (hstart : (disks start).Headed ∨ (disks start).Converting)
    (hle : start ≤ turn)
    (hlisted : listedByShard look files shard turn = .ok (listed, later)) :
    listed = true := by
  obtain ⟨disk, hdisk, hcases⟩ := listedByShard_eq_ok hlisted
  have hdisk' := hfollows.looks turn disk hdisk
  subst hdisk'
  rcases hcases with ⟨_, htrue⟩ | ⟨hnone, next, beside, hnext, hread, hcases⟩
  · exact htrue
  · have hconverting : (disks turn).Converting := by
      rcases hfollows.kept hstart hle with hheaded | hconverting
      · rw [headCursor_of_headed hheaded] at hnone
        cases hnone
      · exact hconverting
    have hnext' := hfollows.looks (turn + 1) next hnext
    subst hnext'
    have htold : (disks (turn + 1)).Told := by
      apply (hfollows.keeps turn).told
      obtain ⟨old, cursor, _, hfile, hcursor⟩ := hconverting
      exact Or.inl ⟨old, cursor, hfile, hcursor⟩
    rcases htold with ⟨old, cursor, hfile, hcursor⟩ | hmoved
    · -- the earlier layout is still there
      have hlegacy : (disks (turn + 1)).legacyCursor.isSome = true := by
        simp [ShardDisk.legacyCursor, hfile, hcursor]
      rcases hcases with ⟨_, hvalue⟩ | ⟨rfl, _⟩
      · exact hvalue.trans hlegacy
      · rw [moved_of_readBeside hread] at hfile
        cases hfile
    · -- the marker is, so the head is too
      have hheaded : (disks (turn + 1)).Headed := by
        rcases (hfollows.keeps turn).converting hconverting with
          ⟨_, _, _, hfile, _⟩ | hheaded
        · rw [hmoved] at hfile
          cases hfile
        · exact hheaded
      rw [hmoved] at hread
      cases hread
      rcases hcases with ⟨hne, _⟩ | ⟨_, last, hlast, hvalue⟩
      · exact absurd rfl hne
      · have hlast' := hfollows.looks (turn + 2) last hlast
        subst hlast'
        rw [hvalue]
        exact headCursor_of_headed ((hfollows.keeps (turn + 1)).headed hheaded)

/-- Judged by its log: its head, or what it is being converted from; and a log
with records is never passed over. -/
theorem TurnReads.listed_log (hfollows : TurnReads look shard disks)
    (hstart : (disks start).Headed ∨ (disks start).Converting)
    (hle : start ≤ turn)
    (hlisted : listedByLog look files shard turn = .ok (listed, later)) :
    listed = true := by
  rcases listedByLog_eq_ok hlisted with
    ⟨before, disk, at', last, hbefore, hlt, hdisk, hpresent, hlast, hvalue⟩ |
    ⟨_, _, _, _, _, htrue⟩ |
    ⟨at', disk, beside, end', last, hat, hlt, hdisk, hread, hconverts, hlast,
      horphan, _⟩
  · have hdisk' := hfollows.looks before disk hdisk
    have hlast' := hfollows.looks at' last hlast
    subst hdisk' hlast'
    have hheaded : (disks before).Headed := by
      rcases hfollows.kept hstart (hle.trans hbefore) with
        hheaded | ⟨_, _, habsent, _⟩
      · exact hheaded
      · exact absurd habsent hpresent
    rw [hvalue]
    exact headCursor_of_headed ((hfollows.through hlt.le).headed hheaded)
  · exact htrue
  · have hdisk' := hfollows.looks at' disk hdisk
    have hlast' := hfollows.looks end' last hlast
    subst hdisk' hlast'
    have hheaded : (disks at').Headed := by
      rcases hfollows.kept hstart (hle.trans hat) with hheaded | hconverting
      · exact hheaded
      · rw [converts_of_readBeside hread,
          legacyCursor_of_converting hconverting] at hconverts
        cases hconverts
    obtain ⟨_, _, _, _, hpos, hlen⟩ :=
      (hfollows.through hlt.le).headed hheaded
    unfold refuseOrphanLog at horphan
    rw [hconverts] at horphan
    simp only [Bool.false_eq_true, if_false] at horphan
    rw [if_pos (by omega)] at horphan
    cases horphan

/-- However a shard with history is judged, it is listed. -/
theorem TurnReads.lists (hfollows : TurnReads look shard disks)
    (hstart : (disks start).Headed ∨ (disks start).Converting)
    (hle : start ≤ turn) {kind : DataFile}
    (hhead : kind = .head → (disks start).Headed)
    (hlisted : listedBy look files shard kind turn = .ok (listed, later)) :
    listed = true := by
  cases kind with
  | head => exact hfollows.listed_head (hhead rfl) hle hlisted
  | shard => exact hfollows.listed_shard hstart hle hlisted
  | log => exact hfollows.listed_log hstart hle hlisted

end Race

end Decern
