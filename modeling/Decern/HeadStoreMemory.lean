import Decern.HeadStoreCrash
import Mathlib.Tactic

/-!
# The file head store and the memory head store

Sections on disk show and do what the same sections do to the shard held in
memory, exactly when an earlier-layout shard that is still to be converted is
one the log can hold.
-/

namespace Decern

open ByteText (Bytes newline)

variable {files : ShardFiles}

/-! ## Sections one after the other -/

variable (files) in
def ShardDisk.performAll (disk : ShardDisk) :
    List Section → ShardDisk × List (Except StoreError Seen)
  | [] => (disk, [])
  | part :: rest =>
      let first := disk.perform files part
      let others := ShardDisk.performAll first.1 rest
      (others.1, first.2 :: others.2)

def Shard.performAll (shard : Shard) :
    List Section → Shard × List (Except StoreError Seen)
  | [] => (shard, [])
  | part :: rest =>
      let first := shard.perform part
      let others := Shard.performAll first.1 rest
      (others.1, first.2 :: others.2)

/-- Sections on the disk show what they show on the shard in memory, and a
history read after them gives the shard's records, each appended one at its
position. -/
def Refines (files : ShardFiles) (disk : ShardDisk) (shard : Shard) : Prop :=
  ∀ parts : List Section, (∀ part ∈ parts, part.WellFormed) →
    (disk.performAll files parts).2 = (shard.performAll parts).2 ∧
      (disk.performAll files parts).1.read files =
        .ok (shard.performAll parts).1 ∧
      ∃ appended, (shard.performAll parts).1.records =
          shard.records ++ appended ∧
        appended.map StoredRecord.seq =
          List.range' shard.records.length appended.length

/-- An earlier-layout shard still to be converted has as many records as its
cursor counts, each at its position and on one line. -/
def ShardDisk.Convertible (disk : ShardDisk) : Prop :=
  ∀ old cursor, disk.head = .absent →
    disk.shardFile = .holds (.legacy old) → old.cursor = some cursor →
    cursor.nextSeq = old.records.length ∧
      numbered (old.records.map StoredRecord.recordJson) = old.records ∧
      ∀ record ∈ old.records, OneLine record.recordJson

/-! ## Where the two agree -/

theorem Mirrors.perform {disk : ShardDisk} {shard : Shard}
    (hmirrors : Mirrors files disk shard) {part : Section}
    (hpart : part.WellFormed) :
    Mirrors files (disk.perform files part).1 (shard.perform part).1 ∧
      (disk.perform files part).2 = (shard.perform part).2 := by
  by_cases happend : ∃ cursor record, part.decide shard.cursor
      (shown part.history shard.records) = .ok (some (cursor, record))
  · obtain ⟨cursor, record, happend⟩ := happend
    obtain ⟨hcommits, hseen⟩ := hmirrors.plan_append hpart happend
    unfold shown at happend hseen
    simp only [ShardDisk.perform, Shard.perform, happend, hseen]
    exact ⟨hcommits.whole, trivial⟩
  · simp only [not_exists] at happend
    have hnothing := hmirrors.plan_nothing happend
    obtain ⟨loaded, hload, hcursor, hrecords⟩ := hmirrors.load part.history
    simp only [ShardDisk.perform, hnothing]
    simp only [ShardDisk.plan, Shard.perform, hload, hcursor, hrecords]
    unfold shown at happend ⊢
    split
    case h_1 => exact ⟨hmirrors, rfl⟩
    case h_2 => exact ⟨hmirrors, rfl⟩
    case h_3 cursor record hdecide => exact absurd hdecide (happend _ _)

theorem Mirrors.performAll {disk : ShardDisk} {shard : Shard}
    (hmirrors : Mirrors files disk shard) {parts : List Section}
    (hparts : ∀ part ∈ parts, part.WellFormed) :
    Mirrors files (disk.performAll files parts).1
        (shard.performAll parts).1 ∧
      (disk.performAll files parts).2 = (shard.performAll parts).2 := by
  induction parts generalizing disk shard with
  | nil => exact ⟨hmirrors, rfl⟩
  | cons part rest ih =>
      obtain ⟨hfirst, hseen⟩ := hmirrors.perform (hparts part (by simp))
      obtain ⟨hrest, hothers⟩ := ih hfirst fun other hother =>
        hparts other (List.mem_cons_of_mem _ hother)
      exact ⟨hrest, by
        simp only [ShardDisk.performAll, Shard.performAll, hseen, hothers]⟩

/-- In memory, records are appended at their positions. -/
theorem perform_appends {shard : Shard}
    (hcount : countOf shard.cursor = shard.records.length) {part : Section}
    (hpart : part.WellFormed) :
    countOf (shard.perform part).1.cursor =
        (shard.perform part).1.records.length ∧
      ∃ appended, (shard.perform part).1.records =
          shard.records ++ appended ∧
        appended.map StoredRecord.seq =
          List.range' shard.records.length appended.length := by
  unfold Shard.perform
  simp only
  split
  case h_1 => exact ⟨hcount, [], by simp, rfl⟩
  case h_2 => exact ⟨hcount, [], by simp, rfl⟩
  case h_3 cursor record hdecide =>
    obtain ⟨-, hcursor⟩ := hpart _ _ _ _ hdecide
    rw [hcount] at hcursor
    refine ⟨?_, [⟨cursor.nextSeq - 1, record⟩], rfl, ?_⟩
    · simp [Shard.commit, countOf, hcursor]
    · simp [hcursor]

theorem performAll_appends {shard : Shard}
    (hcount : countOf shard.cursor = shard.records.length)
    {parts : List Section} (hparts : ∀ part ∈ parts, part.WellFormed) :
    ∃ appended, (shard.performAll parts).1.records =
        shard.records ++ appended ∧
      appended.map StoredRecord.seq =
        List.range' shard.records.length appended.length := by
  induction parts generalizing shard with
  | nil => exact ⟨[], by simp [Shard.performAll], rfl⟩
  | cons part rest ih =>
      obtain ⟨hnext, first, hfirst, hseqs⟩ :=
        perform_appends hcount (hparts part (by simp))
      obtain ⟨others, hothers, hmore⟩ := ih hnext fun other hother =>
        hparts other (List.mem_cons_of_mem _ hother)
      refine ⟨first ++ others, ?_, ?_⟩
      · rw [Shard.performAll, hothers, hfirst, List.append_assoc]
      · rw [List.map_append, hseqs, hmore, hfirst, List.length_append,
          List.length_append, List.range'_append_1]

/-! ## Disks whose history reads -/

theorem isPrefix_of_all_zip {left right : List StoredRecord}
    (hlength : left.length ≤ right.length)
    (hall : (left.zip right).all (fun pair =>
      pair.1.recordJson == pair.2.recordJson) = true) :
    left.map StoredRecord.recordJson <+:
      right.map StoredRecord.recordJson := by
  induction left generalizing right with
  | nil => exact List.nil_prefix
  | cons first rest ih =>
      cases right with
      | nil => simp at hlength
      | cons other others =>
          rw [List.zip_cons_cons, List.all_cons, Bool.and_eq_true,
            beq_iff_eq] at hall
          rw [List.map_cons, List.map_cons, hall.1, List.prefix_cons_inj]
          exact ih (by simpa using hlength) hall.2

theorem prefix_of_refuseUnlessPrefix {log : Option Bytes} {head : FileHead}
    {lines : List String} {old : LegacyShard}
    (hread : readLog files log head = .ok (numbered lines))
    (hok : refuseUnlessPrefix files log head old = .ok ()) :
    old.records.map StoredRecord.recordJson <+: lines := by
  unfold refuseUnlessPrefix at hok
  simp only [hread, bind, Except.bind] at hok
  split at hok
  case isTrue hstarts =>
    have h := isPrefix_of_all_zip hstarts.1 hstarts.2
    rwa [numbered_map_recordJson] at h
  case isFalse => cases hok

theorem load_holds_eq_ok {disk : ShardDisk} {head : FileHead}
    {beside : Beside} {loaded : Loaded} (hhead : disk.head = .holds head)
    (hbeside : readBeside files disk.shardFile = .ok beside)
    (hload : load files disk true = .ok loaded) :
    ∃ records, readLog files disk.log head = .ok records ∧
      loaded = ⟨some head, beside, records⟩ ∧
      ∀ old, beside = .earlier old →
        refuseUnlessPrefix files disk.log head old = .ok () := by
  simp only [load, hbeside, hhead, readHead, bind, Except.bind, if_true]
    at hload
  cases hrecords : readLog files disk.log head with
  | error error =>
      rw [hrecords] at hload
      cases beside with
      | missing => cases hload
      | marker => cases hload
      | earlier old =>
          simp only at hload
          split at hload <;> cases hload
  | ok records =>
      rw [hrecords] at hload
      cases beside with
      | missing =>
          cases hload
          exact ⟨records, rfl, rfl, by simp⟩
      | marker =>
          cases hload
          exact ⟨records, rfl, rfl, by simp⟩
      | earlier old =>
          simp only at hload
          split at hload
          case h_1 => cases hload
          case h_2 hstarts =>
            cases hload
            refine ⟨records, rfl, rfl, ?_⟩
            rintro other ⟨⟩
            exact hstarts

theorem load_absent_eq_ok {disk : ShardDisk} {beside : Beside}
    {loaded : Loaded} (hhead : disk.head = .absent)
    (hbeside : readBeside files disk.shardFile = .ok beside)
    (hload : load files disk true = .ok loaded) :
    refuseOrphanLog files disk.log beside = .ok () ∧
      ((beside.converts = false ∧ loaded.records = [] ∧
          loaded.cursor = none) ∨
        ∃ old cursor, beside = .earlier old ∧ old.cursor = some cursor ∧
          loaded = ⟨none, .earlier old, old.records⟩) := by
  simp only [load, hbeside, hhead, readHead, bind, Except.bind, if_true]
    at hload
  split at hload
  case h_1 => cases hload
  case h_2 _ horphan =>
    refine ⟨horphan, ?_⟩
    cases hload
    cases beside with
    | missing => exact Or.inl ⟨rfl, rfl, rfl⟩
    | marker => exact Or.inl ⟨rfl, rfl, rfl⟩
    | earlier old =>
        cases hcursor : old.cursor with
        | none =>
            have hconverts : (Beside.earlier old).converts = false := by
              simp [Beside.converts, hcursor]
            rw [legacy_empty hbeside hconverts]
            exact Or.inl ⟨rfl, rfl, rfl⟩
        | some cursor => exact Or.inr ⟨old, cursor, rfl, hcursor, rfl⟩

theorem shardFile_of_earlier {file : Stored ShardFile} {old : LegacyShard}
    (hbeside : readBeside files file = .ok (.earlier old)) :
    file = .holds (.legacy old) := by
  unfold readBeside at hbeside
  split at hbeside
  case h_4 other =>
    split at hbeside
    case isTrue => cases hbeside
    case isFalse =>
      cases hbeside
      rfl
  all_goals cases hbeside

/-- Where the history reads, the disk mirrors it, unless it is an earlier
layout the log cannot hold. -/
theorem mirrors_of_read {disk : ShardDisk} {shard : Shard}
    (hread : disk.read files = .ok shard)
    (hconvertible : disk.Convertible) : Mirrors files disk shard := by
  unfold ShardDisk.read at hread
  cases hload : load files disk true with
  | error error =>
      rw [hload] at hread
      cases hread
  | ok loaded =>
      rw [hload] at hread
      cases hread
      obtain ⟨beside, hbeside⟩ : ∃ beside,
          readBeside files disk.shardFile = .ok beside := by
        cases hbeside : readBeside files disk.shardFile with
        | error error =>
            rw [load, hbeside] at hload
            cases hload
        | ok beside => exact ⟨beside, rfl⟩
      cases hhead : disk.head with
      | unreadable message =>
          rw [load, hbeside, hhead] at hload
          cases hload
      | holds head =>
          obtain ⟨records, hrecords, rfl, hstarts⟩ :=
            load_holds_eq_ok hhead hbeside hload
          obtain ⟨lines, tail, hlines, hlog, hlen, rfl, hcount⟩ :=
            readLog_eq_ok hrecords
          have hspent : beside.Spent lines := by
            cases beside with
            | missing => trivial
            | marker => trivial
            | earlier old =>
                exact prefix_of_refuseUnlessPrefix hrecords (hstarts old rfl)
          have hsame : head = ⟨head.cursor, (logBytes lines).length⟩ := by
            rw [← hlen]
          exact .headed disk beside lines tail head.cursor hbeside hspent
            (by rw [hhead, ← hsame]) hlog hlines hcount
      | absent =>
          obtain ⟨horphan, hrest⟩ := load_absent_eq_ok hhead hbeside hload
          rcases hrest with ⟨hconverts, hrecords, hcursor⟩ |
            ⟨old, cursor, rfl, hcursor, rfl⟩
          · change Mirrors files disk ⟨loaded.cursor, loaded.records⟩
            rw [hrecords, hcursor]
            have hlog : disk.log.getD [] = [] := by
              unfold refuseOrphanLog at horphan
              rw [hconverts] at horphan
              simp only [Bool.false_eq_true, if_false] at horphan
              split at horphan
              case isTrue => cases horphan
              case isFalse hzero =>
                exact List.length_eq_zero_iff.mp (by omega)
            exact .fresh disk beside hbeside hconverts hhead hlog
          · have hfile := shardFile_of_earlier hbeside
            obtain ⟨hcount, hnumbered, hlines⟩ :=
              hconvertible old cursor hhead hfile hcursor
            obtain ⟨oldCursor, oldRecords⟩ := old
            cases hcursor
            simp only at hcount hnumbered hlines
            have hfile' : disk.shardFile = .holds (.legacy ⟨some cursor,
                numbered (oldRecords.map StoredRecord.recordJson)⟩) := by
              rw [hnumbered]
              exact hfile
            have hmirrors : Mirrors files disk ⟨some cursor,
                numbered (oldRecords.map StoredRecord.recordJson)⟩ :=
              .converting disk _ cursor hfile' hhead (by simpa using hlines)
                (by simpa using hcount)
            rw [hnumbered] at hmirrors
            exact hmirrors

/-! ## When the two agree -/

section Legacy

variable {disk : ShardDisk} {cursor : HeadCursor}
  {oldRecords : List StoredRecord} {record : String}

/-- An append on an earlier-layout shard rewrites its records to the log. -/
theorem plan_appendSection
    (hfile : disk.shardFile = .holds (.legacy ⟨some cursor, oldRecords⟩))
    (hhead : disk.head = .absent) {appended : List DiskStep}
    {reached : Except StoreError ℕ}
    (happend : appendLog files disk.log 0
      (oldRecords.map StoredRecord.recordJson ++ [record]) =
        (appended, reached)) :
    disk.plan files (appendSection record) = match reached with
      | .error error => (appended, .ok ⟨some cursor, [], .error error⟩)
      | .ok logLen =>
          (appended ++ [.writeHead
              ⟨some ⟨cursor.nextSeq + 1, record, none⟩, logLen⟩, .mark],
            .ok ⟨some cursor, [], .ok ()⟩) := by
  have hload : load files disk false = _ := load_converting hfile hhead false
  simp only [ShardDisk.plan, appendSection, Section.history, Section.decide,
    hload, commitSteps, Option.isSome_some, if_true, happend]
  cases reached with
  | error error => rfl
  | ok logLen => rfl

theorem perform_appendSection (shard : Shard) (record : String) :
    shard.perform (appendSection record) =
      (shard.commit ⟨countOf shard.cursor + 1, record, none⟩ record,
        .ok ⟨shard.cursor, [], .ok ()⟩) := rfl

end Legacy

theorem commit_records (shard : Shard) (cursor : HeadCursor)
    (line : String) : (shard.commit cursor line).records =
      shard.records ++ [⟨cursor.nextSeq - 1, line⟩] := rfl

theorem readLog_of_read {disk : ShardDisk} {shard : Shard} {head : FileHead}
    (hhead : disk.head = .holds head) (hmarked : disk.shardFile = .holds .moved)
    (hread : disk.read files = .ok shard) :
    readLog files disk.log head = .ok shard.records := by
  unfold ShardDisk.read at hread
  cases hload : load files disk true with
  | error error =>
      rw [hload] at hread
      cases hread
  | ok loaded =>
      have hbeside : readBeside files disk.shardFile = .ok .marker := by
        rw [hmarked]
        rfl
      obtain ⟨records, hrecords, rfl, -⟩ :=
        load_holds_eq_ok hhead hbeside hload
      rw [hload] at hread
      cases hread
      exact hrecords

/-- One append shows whether the log can hold an earlier layout. -/
theorem convertible_of_refines {disk : ShardDisk} {shard : Shard}
    (hread : disk.read files = .ok shard)
    (hrefines : Refines files disk shard) : disk.Convertible := by
  intro old cursor hhead hfile hcursor
  obtain ⟨oldCursor, oldRecords⟩ := old
  cases hcursor
  have hshard : shard = ⟨some cursor, oldRecords⟩ := by
    rw [ShardDisk.read, load_converting hfile hhead true] at hread
    cases hread
    rfl
  obtain ⟨hseen, hhistory, -⟩ := hrefines [appendSection ""]
    (by simpa using appendSection_wellFormed (by simp [OneLine]))
  obtain ⟨appended, reached, happend⟩ : ∃ appended reached,
      appendLog files disk.log 0
        (oldRecords.map StoredRecord.recordJson ++ [""]) =
          (appended, reached) := ⟨_, _, rfl⟩
  have hplan := plan_appendSection hfile hhead happend
  simp only [ShardDisk.performAll, ShardDisk.perform, Shard.performAll,
    hplan, hshard, perform_appendSection] at hseen hhistory
  cases reached with
  | error error => simp at hseen
  | ok logLen =>
      simp only at hhistory
      rw [run_append] at hhistory
      generalize hfinal : (disk.run appended).run _ = final at hhistory
      have hlog := readLog_of_read (by rw [← hfinal]; rfl)
        (by rw [← hfinal]; rfl) hhistory
      obtain ⟨lines, -, hlines, -, -, hrecords, hcount⟩ := readLog_eq_ok hlog
      have hmap := congrArg (List.map StoredRecord.recordJson) hrecords
      rw [numbered_map_recordJson] at hmap
      simp only [commit_records, List.map_append, List.map_cons,
        List.map_nil] at hmap hrecords
      rw [← hmap, numbered_append_singleton] at hrecords
      have hsame := List.append_inj_left' hrecords rfl
      rw [← hmap] at hcount hlines
      refine ⟨?_, hsame.symm, ?_⟩
      · simpa [countOf] using hcount
      · intro record hrecord
        exact hlines _ (List.mem_append_left _
          (List.mem_map_of_mem hrecord))

/-- Where a shard's history reads, sections on its files and on memory agree
exactly when an earlier layout still to be converted fits the log. -/
theorem file_refines_memory_iff (files : ShardFiles) (disk : ShardDisk)
    (shard : Shard) (hread : disk.read files = .ok shard) :
    Refines files disk shard ↔ disk.Convertible := by
  constructor
  · exact convertible_of_refines hread
  · intro hconvertible parts hparts
    have hmirrors := mirrors_of_read hread hconvertible
    obtain ⟨hafter, hseen⟩ := hmirrors.performAll hparts
    exact ⟨hseen, hafter.read,
      performAll_appends hmirrors.counted hparts⟩

/-- An earlier layout whose cursor counts a record it does not hold. -/
def miscountedShard (count : ℕ) : ShardDisk :=
  { shardFile := .holds (.legacy ⟨some ⟨count, "", none⟩, [⟨0, "record"⟩]⟩) }

theorem miscountedShard_read (count : ℕ) :
    (miscountedShard count).read sampleFiles =
      .ok ⟨some ⟨count, "", none⟩, [⟨0, "record"⟩]⟩ := rfl

theorem miscounted_shard_breaks :
    ¬ ∀ (files : ShardFiles) (disk : ShardDisk) (shard : Shard),
      disk.read files = .ok shard → Refines files disk shard := by
  intro hall
  have hread := miscountedShard_read 2
  have hconvertible := convertible_of_refines hread (hall _ _ _ hread)
  obtain ⟨hcount, -⟩ := hconvertible _ _ rfl rfl rfl
  exact absurd hcount (by decide)

theorem file_refines_memory_sample :
    Refines sampleFiles (miscountedShard 1)
      ⟨some ⟨1, "", none⟩, [⟨0, "record"⟩]⟩ := by
  apply (file_refines_memory_iff _ _ _ (miscountedShard_read 1)).mpr
  rintro old cursor - ⟨⟩ ⟨⟩
  refine ⟨rfl, rfl, ?_⟩
  simp [OneLine]

end Decern
