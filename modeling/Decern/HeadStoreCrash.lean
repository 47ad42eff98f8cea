import Decern.HeadStoreRuns
import Mathlib.Tactic

/-!
# Stops in the middle of a commit

Whatever a shard's disk has been through, an append that stops after any of
its steps leaves a history that reads as before it or with its record, and
the next append succeeds.
-/

namespace Decern

variable {files : ShardFiles}

/-! ## Sections on a mirroring disk -/

/-- A callback that appends a one-line record and advances the cursor by
one. -/
def Section.WellFormed (part : Section) : Prop :=
  ∀ cursor records next record,
    part.decide cursor records = .ok (some (next, record)) →
    OneLine record ∧ next.nextSeq = countOf cursor + 1

/-- A section that appends a record whatever it is shown. -/
def appendSection (record : String) : Section :=
  .withShardHead fun cursor =>
    .ok (some (⟨countOf cursor + 1, record, none⟩, record))

theorem appendSection_wellFormed {record : String}
    (hrecord : OneLine record) : (appendSection record).WellFormed := by
  intro cursor records next line hdecide
  cases hdecide
  exact ⟨hrecord, rfl⟩

theorem Mirrors.read {disk : ShardDisk} {shard : Shard}
    (hmirrors : Mirrors files disk shard) :
    disk.read files = .ok shard := by
  obtain ⟨loaded, hload, hcursor, hrecords⟩ := hmirrors.load true
  simp only [ShardDisk.read, hload, Except.map, hcursor, hrecords, shown,
    if_true]

theorem Mirrors.counted {disk : ShardDisk} {shard : Shard}
    (hmirrors : Mirrors files disk shard) :
    countOf shard.cursor = shard.records.length := by
  cases hmirrors with
  | headed beside lines tail cursor hbeside hspent hhead hlog hlines hcount =>
      rw [numbered_length]
      exact hcount
  | converting lines cursor hbeside hhead hlines hcount =>
      rw [numbered_length]
      exact hcount
  | fresh beside hbeside hspent hhead hlog => rfl

/-- A section that appends plans a commit, and succeeds if it is not
stopped. -/
theorem Mirrors.plan_append {disk : ShardDisk} {shard : Shard}
    (hmirrors : Mirrors files disk shard) {part : Section}
    (hpart : part.WellFormed) {cursor : HeadCursor} {record : String}
    (happend : part.decide shard.cursor
      (shown part.history shard.records) = .ok (some (cursor, record))) :
    Commits files disk shard (shard.commit cursor record)
        (disk.plan files part).1 ∧
      (disk.plan files part).2 =
        .ok ⟨shard.cursor, shown part.history shard.records, .ok ()⟩ := by
  obtain ⟨loaded, hload, hcursor, hrecords⟩ := hmirrors.load part.history
  obtain ⟨hrecord, hnext⟩ := hpart _ _ _ _ happend
  obtain ⟨steps, hsteps, hcommits⟩ :=
    hmirrors.commit hload hrecord hnext
  simp only [ShardDisk.plan, hload, hcursor, hrecords, happend, hsteps]
  exact ⟨hcommits, trivial⟩

/-- A section that appends nothing takes no step. -/
theorem Mirrors.plan_nothing {disk : ShardDisk} {shard : Shard}
    (hmirrors : Mirrors files disk shard) {part : Section}
    (hnothing : ∀ cursor record, part.decide shard.cursor
      (shown part.history shard.records) ≠ .ok (some (cursor, record))) :
    (disk.plan files part).1 = [] := by
  obtain ⟨loaded, hload, hcursor, hrecords⟩ := hmirrors.load part.history
  simp only [ShardDisk.plan, hload, hcursor, hrecords]
  split
  case h_1 => rfl
  case h_2 => rfl
  case h_3 cursor record happend => exact absurd happend (hnothing _ _)

/-- The shard after one more record, at its position. -/
theorem Mirrors.commit_eq {disk : ShardDisk} {shard : Shard}
    (hmirrors : Mirrors files disk shard) {cursor : HeadCursor}
    (hcursor : cursor.nextSeq = countOf shard.cursor + 1) (record : String) :
    shard.commit cursor record =
      { cursor := some cursor
        records := shard.records ++ [⟨shard.records.length, record⟩] } := by
  rw [Shard.commit, hcursor, hmirrors.counted]
  rfl

/-! ## Runs -/

/-- A section, run to its end or stopped after some steps. -/
structure Attempt where
  part : Section
  stop : Option ℕ

def Attempt.steps (attempt : Attempt) (steps : List DiskStep) :
    List DiskStep :=
  match attempt.stop with
  | none => steps
  | some count => steps.take count

variable (files) in
def ShardDisk.attempt (disk : ShardDisk) (attempt : Attempt) : ShardDisk :=
  disk.run (attempt.steps (disk.plan files attempt.part).1)

variable (files) in
def ShardDisk.after (disk : ShardDisk) (attempts : List Attempt) :
    ShardDisk :=
  StateRun.run (ShardDisk.attempt files) disk attempts

/-- A shard no step has touched yet: new, in the earlier layout, or with a
head that its log agrees with, its marker there or missing. -/
inductive ShardDisk.Start : ShardDisk → Prop
  | new : Start {}
  | earlier (lines : List String) (cursor : HeadCursor)
      (hlines : ∀ line ∈ lines, OneLine line)
      (hcount : cursor.nextSeq = lines.length) :
      Start
        { shardFile := .holds (.legacy ⟨some cursor, numbered lines⟩) }
  | existing (lines : List String) (cursor : HeadCursor)
      (shardFile : Stored ShardFile)
      (hshardFile : shardFile = .absent ∨ shardFile = .holds .moved)
      (hlines : ∀ line ∈ lines, OneLine line)
      (hcount : cursor.nextSeq = lines.length) :
      Start
        { shardFile := shardFile
          head := .holds ⟨some cursor, (logBytes lines).length⟩
          log := some (logBytes lines) }

theorem ShardDisk.Start.mirrors {disk : ShardDisk} (hstart : disk.Start) :
    ∃ shard, Mirrors files disk shard := by
  cases hstart with
  | new => exact ⟨_, .fresh _ .missing rfl rfl rfl rfl⟩
  | earlier lines cursor hlines hcount =>
      exact ⟨_, .converting _ lines cursor rfl rfl hlines hcount⟩
  | existing lines cursor shardFile hshardFile hlines hcount =>
      rcases hshardFile with rfl | rfl
      · exact ⟨_, .headed _ .missing lines [] (some cursor) rfl trivial rfl
          (by simp) hlines hcount⟩
      · exact ⟨_, .headed _ .marker lines [] (some cursor) rfl trivial rfl
          (by simp) hlines hcount⟩

theorem attempt_mirrors (disk : ShardDisk) (attempt : Attempt)
    (hmirrors : ∃ shard, Mirrors files disk shard)
    (hpart : attempt.part.WellFormed) :
    ∃ shard, Mirrors files (disk.attempt files attempt) shard := by
  obtain ⟨shard, hmirrors⟩ := hmirrors
  by_cases happend : ∃ cursor record, attempt.part.decide shard.cursor
      (shown attempt.part.history shard.records) =
        .ok (some (cursor, record))
  · obtain ⟨cursor, record, happend⟩ := happend
    obtain ⟨hcommits, -⟩ := hmirrors.plan_append hpart happend
    unfold ShardDisk.attempt Attempt.steps
    cases attempt.stop with
    | none => exact ⟨_, hcommits.whole⟩
    | some count =>
        rcases hcommits.anywhere count with hold | hnew
        · exact ⟨_, hold⟩
        · exact ⟨_, hnew⟩
  · simp only [not_exists] at happend
    have hnothing := hmirrors.plan_nothing happend
    refine ⟨shard, ?_⟩
    unfold ShardDisk.attempt Attempt.steps
    rw [hnothing]
    cases attempt.stop with
    | none => exact hmirrors
    | some count =>
        simp only [List.take_nil]
        exact hmirrors

theorem after_mirrors {disk : ShardDisk} (hstart : disk.Start)
    {attempts : List Attempt}
    (hattempts : ∀ attempt ∈ attempts, attempt.part.WellFormed) :
    ∃ shard, Mirrors files (disk.after files attempts) shard :=
  StateRun.run_preserves (ShardDisk.attempt files) attempt_mirrors
    hstart.mirrors hattempts

/-- After any run of appends and stops, an append stopped after any of its
steps leaves the history as it was or with its record, and the append after
it succeeds. -/
theorem commit_crash_atomic (files : ShardFiles) (start : ShardDisk)
    (hstart : start.Start) (attempts : List Attempt)
    (hattempts : ∀ attempt ∈ attempts, attempt.part.WellFormed) :
    ∃ shard, (start.after files attempts).read files = .ok shard ∧
      ∀ (part : Section) (cursor : HeadCursor) (record : String) (count : ℕ),
        part.WellFormed →
        part.decide shard.cursor (shown part.history shard.records) =
          .ok (some (cursor, record)) →
        ∃ left,
          ((start.after files attempts).attempt files
            ⟨part, some count⟩).read files = .ok left ∧
          (left = shard ∨ left =
            { cursor := some cursor
              records := shard.records ++
                [⟨shard.records.length, record⟩] }) ∧
          ∀ (next : Section) (nextCursor : HeadCursor) (nextRecord : String),
            next.WellFormed →
            next.decide left.cursor (shown next.history left.records) =
              .ok (some (nextCursor, nextRecord)) →
            (((start.after files attempts).attempt files
                ⟨part, some count⟩).perform files next).2 =
                .ok ⟨left.cursor, shown next.history left.records, .ok ()⟩ ∧
              (((start.after files attempts).attempt files
                ⟨part, some count⟩).perform files next).1.read files = .ok
                { cursor := some nextCursor
                  records := left.records ++
                    [⟨left.records.length, nextRecord⟩] } := by
  obtain ⟨shard, hmirrors⟩ : ∃ shard,
      Mirrors files (start.after files attempts) shard :=
    after_mirrors hstart hattempts
  refine ⟨shard, hmirrors.read, ?_⟩
  intro part cursor record count hpart happend
  obtain ⟨hcommits, -⟩ := hmirrors.plan_append hpart happend
  obtain ⟨left, hleft, hside⟩ : ∃ left,
      Mirrors files ((start.after files attempts).attempt files
        ⟨part, some count⟩) left ∧
      (left = shard ∨ left = shard.commit cursor record) := by
    rcases hcommits.anywhere count with hold | hnew
    · exact ⟨_, hold, Or.inl rfl⟩
    · exact ⟨_, hnew, Or.inr rfl⟩
  rw [hmirrors.commit_eq (hpart _ _ _ _ happend).2] at hside
  refine ⟨left, hleft.read, hside, ?_⟩
  intro next nextCursor nextRecord hnext hdecide
  obtain ⟨hrepair, hseen⟩ := hleft.plan_append hnext hdecide
  constructor
  · exact hseen
  · rw [← hleft.commit_eq (hnext _ _ _ _ hdecide).2]
    exact hrepair.whole.read

def sampleFiles : ShardFiles :=
  { shardFile := "ledger/61.shard"
    head := "ledger/61.head"
    log := "ledger/61.log"
    utf8Error := fun _ => "invalid utf-8 sequence" }

/-- The first append stopped after three steps, the second after four, and
the third let through. -/
theorem commit_crash_atomic_sample :
    ∃ shard left,
      (ShardDisk.after sampleFiles {}
        [⟨appendSection "first", some 3⟩]).read sampleFiles = .ok shard ∧
      ((ShardDisk.after sampleFiles {}
        [⟨appendSection "first", some 3⟩]).attempt sampleFiles
        ⟨appendSection "second", some 4⟩).read sampleFiles = .ok left ∧
      (left = shard ∨ left =
        { cursor := some ⟨countOf shard.cursor + 1, "second", none⟩
          records := shard.records ++
            [⟨shard.records.length, "second"⟩] }) ∧
      (((ShardDisk.after sampleFiles {}
        [⟨appendSection "first", some 3⟩]).attempt sampleFiles
        ⟨appendSection "second", some 4⟩).perform sampleFiles
        (appendSection "third")).1.read sampleFiles = .ok
          { cursor := some ⟨countOf left.cursor + 1, "third", none⟩
            records := left.records ++
              [⟨left.records.length, "third"⟩] } := by
  obtain ⟨shard, hread, hstopped⟩ := commit_crash_atomic sampleFiles {} .new
    [⟨appendSection "first", some 3⟩]
    (by simpa using appendSection_wellFormed (by simp [OneLine]))
  obtain ⟨left, hleft, hside, hnext⟩ := hstopped (appendSection "second")
    ⟨countOf shard.cursor + 1, "second", none⟩ "second" 4
    (appendSection_wellFormed (by simp [OneLine])) rfl
  obtain ⟨-, hthird⟩ := hnext (appendSection "third")
    ⟨countOf left.cursor + 1, "third", none⟩ "third"
    (appendSection_wellFormed (by simp [OneLine])) rfl
  exact ⟨shard, left, hread, hleft, hside, hthird⟩

end Decern
