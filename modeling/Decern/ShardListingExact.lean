import Decern.ShardListingRace
import Mathlib.Tactic

/-!
# The audit set

Over a directory at rest the listing is the shards whose files state a cursor.
Under writers it may list more by the time it ends, and never less than had
history when it began.
-/

namespace Decern

section AtRest

variable {root : String} {text : ListingText} {look : Looks}
  {dir : LedgerDir} {names list : List String} {start later : ℕ}

theorem listShards_eq_ok {entries : Option (List String)}
    (hlist : listShards root text look (.ok entries) start =
      .ok (list, later)) :
    ∃ result : Std.ExtTreeSet String, list = result.toList ∧
      Lists root text look (entries.getD []) ∅ result := by
  unfold listShards at hlist
  obtain ⟨found, _, hentries, hrest⟩ := bind_listing_eq_ok.mp hlist
  have hfound : entries = found :=
    Except.ok.inj (lift_listing_eq_ok.mp hentries).1
  subst hfound
  cases entries with
  | none =>
      have hvalue := pure_listing_eq_ok.mp hrest
      refine ⟨∅, ?_, ?_⟩
      · exact congrArg Prod.fst hvalue
      · exact {
          kept := fun _ hmem => hmem
          sound := fun _ hmem => Or.inl hmem
          judged := by simp }
  | some names => exact listNamed_eq_ok hrest

theorem Lists.judged_file {result : Std.ExtTreeSet String}
    (hlists : Lists root text look names ∅ result) {shard : String}
    {kind : DataFile} (hname : dataFileName shard kind ∈ names) :
    ∃ files listed turn later, filesOf root shard text.utf8Error =
        .ok files ∧
      listedBy look files shard kind turn = .ok (listed, later) ∧
      (listed = true → shard ∈ result) := by
  rcases hlists.judged _ hname with hnone | ⟨_, listed, turn, hjudged, hmem⟩
  · rw [dataFileName, dataFile_append] at hnone
    cases hnone
  · obtain ⟨rfl, files, later, hfiles, hlisted⟩ :=
      judged_dataFileName hjudged
    exact ⟨files, listed, turn, later, hfiles, hlisted, hmem⟩

/-- What is in the set was seen with a cursor. -/
theorem Lists.stated {result : Std.ExtTreeSet String}
    (hlists : Lists root text look names ∅ result) {shard : String}
    (hmem : shard ∈ result) :
    shard ≠ "" ∧ ∃ turn disk, look turn shard = .ok disk ∧
      (disk.headCursor.isSome ∨ disk.legacyCursor.isSome) := by
  rcases hlists.sound shard hmem with hempty | ⟨_, _, _, hjudged⟩
  · simp at hempty
  · obtain ⟨_, _, files, _, _, _, hfiles, hlisted⟩ := hjudged
    refine ⟨?_, stated_of_listedBy hlisted⟩
    rintro rfl
    cases hfiles

theorem Lists.mem_of_headCursor {result : Std.ExtTreeSet String}
    (hlists : Lists root text look (dir.entries.getD []) ∅ result)
    (hlook : ∀ turn shard disk, look turn shard = .ok disk →
      disk = dir.disk shard) {shard : String}
    (hcursor : (dir.disk shard).headCursor.isSome) : shard ∈ result := by
  have hhas : (dir.disk shard).Has .head := by
    intro habsent
    simp [ShardDisk.headCursor, habsent] at hcursor
  obtain ⟨_, _, _, _, _, hlisted, hmem⟩ :=
    hlists.judged_file ((dir.entry shard .head).mp hhas)
  obtain ⟨disk, hdisk, hvalue⟩ := headListed_eq_ok hlisted
  rw [hlook _ _ disk hdisk] at hvalue
  exact hmem (hvalue.trans hcursor)

theorem Lists.mem_of_legacyCursor {result : Std.ExtTreeSet String}
    (hlists : Lists root text look (dir.entries.getD []) ∅ result)
    (hlook : ∀ turn shard disk, look turn shard = .ok disk →
      disk = dir.disk shard) {shard : String}
    (hcursor : (dir.disk shard).legacyCursor.isSome) : shard ∈ result := by
  have hhas : (dir.disk shard).Has .shard := by
    intro habsent
    simp [ShardDisk.legacyCursor, habsent] at hcursor
  obtain ⟨files, _, _, _, _, hlisted, hmem⟩ :=
    hlists.judged_file ((dir.entry shard .shard).mp hhas)
  apply hmem
  obtain ⟨disk, _, ⟨_, htrue⟩ | ⟨_, next, beside, hnext, hread,
    ⟨_, hvalue⟩ | ⟨rfl, _⟩⟩⟩ := listedByShard_eq_ok hlisted
  · exact htrue
  · rw [hlook _ _ next hnext] at hvalue
    exact hvalue.trans hcursor
  · rw [hlook _ _ next hnext] at hread
    rw [← converts_of_readBeside hread] at hcursor
    cases hcursor

/-- A cursor over no record at all. -/
def ShardDisk.Hollow (disk : ShardDisk) : Prop :=
  (∃ head cursor, disk.head = .holds head ∧ head.cursor = some cursor ∧
    cursor.nextSeq = 0) ∨
  ∃ old cursor, disk.shardFile = .holds (.legacy old) ∧
    old.cursor = some cursor ∧ old.records = []

theorem hollow_of_read {files : ShardFiles} {disk : ShardDisk} {held : Shard}
    (hread : disk.read files = .ok held) (hempty : held.records = [])
    (hstated : disk.headCursor.isSome ∨ disk.legacyCursor.isSome) :
    disk.Hollow := by
  have hlegacy : disk.legacyCursor.isSome → ∃ old cursor,
      disk.shardFile = .holds (.legacy old) ∧ old.cursor = some cursor := by
    intro hsome
    unfold ShardDisk.legacyCursor at hsome
    split at hsome
    case h_1 old hfile =>
      obtain ⟨cursor, hcursor⟩ := Option.isSome_iff_exists.mp hsome
      exact ⟨old, cursor, hfile, hcursor⟩
    case h_2 => cases hsome
  have hearlier : ∀ {old : LegacyShard} {beside : Beside},
      disk.shardFile = .holds (.legacy old) →
      readBeside files disk.shardFile = .ok beside →
      beside = .earlier old := by
    intro old beside hfile hbeside
    rw [hfile] at hbeside
    simp only [readBeside] at hbeside
    split at hbeside
    case isTrue => cases hbeside
    case isFalse =>
      cases hbeside
      rfl
  unfold ShardDisk.read at hread
  cases hload : load files disk true with
  | error error =>
      rw [hload] at hread
      cases hread
  | ok loaded =>
      rw [hload] at hread
      cases hread
      change loaded.records = [] at hempty
      obtain ⟨hbeside, hhead⟩ := load_eq_ok hload
      rcases readHead_eq_ok hhead with ⟨habsent, _⟩ | ⟨head, hholds, _⟩
      · have hsome : disk.legacyCursor.isSome := by
          simpa [ShardDisk.headCursor, habsent] using hstated
        obtain ⟨old, cursor, hfile, hcursor⟩ := hlegacy hsome
        have hkind := hearlier hfile hbeside
        obtain ⟨_, ⟨hconverts, _, _⟩ | ⟨other, _, hother, _, hloaded⟩⟩ :=
          load_absent_eq_ok habsent hbeside hload
        · rw [hkind] at hconverts
          simp [Beside.converts, hcursor] at hconverts
        · rw [hkind] at hother
          cases hother
          rw [hloaded] at hempty
          exact Or.inr ⟨old, cursor, hfile, hcursor, hempty⟩
      · obtain ⟨records, hlog, hloaded, hstarts⟩ :=
          load_holds_eq_ok hholds hbeside hload
        rw [hloaded] at hempty
        change records = [] at hempty
        subst hempty
        obtain ⟨lines, _, _, _, _, hnumbered, hcount⟩ := readLog_eq_ok hlog
        have hlines : lines = [] := by
          have hlength := congrArg List.length hnumbered
          rw [numbered_length] at hlength
          exact List.length_eq_zero_iff.mp hlength.symm
        subst hlines
        cases hcursor : head.cursor with
        | some cursor =>
            rw [hcursor] at hcount
            exact Or.inl ⟨head, cursor, hholds, hcursor, hcount⟩
        | none =>
            have hsome : disk.legacyCursor.isSome := by
              simpa [ShardDisk.headCursor, hholds, hcursor] using hstated
            obtain ⟨old, cursor, hfile, hcursor'⟩ := hlegacy hsome
            have hlog' : readLog files disk.log head = .ok (numbered []) :=
              hlog
            have hprefix := prefix_of_refuseUnlessPrefix hlog'
              (hstarts old (hearlier hfile hbeside))
            refine Or.inr ⟨old, cursor, hfile, hcursor', ?_⟩
            simpa using List.prefix_nil.mp hprefix

end AtRest

/-! ## Under writers -/

/-- The writers' state at each moment of a listing, after what they do up to
it. -/
def writerAt (files : String → ShardFiles) (origin : String → ShardDisk)
    (between : ℕ → String → List WriterStep) : ℕ → String → ShardWriter
  | 0, shard =>
      StateRun.run (ShardWriter.step (files shard)) ⟨origin shard, []⟩
        (between 0 shard)
  | moment + 1, shard =>
      StateRun.run (ShardWriter.step (files shard))
        (writerAt files origin between moment shard)
        (between (moment + 1) shard)

theorem writerAt_keeps (files : String → ShardFiles)
    (origin : String → ShardDisk)
    (between : ℕ → String → List WriterStep) (moment : ℕ) (shard : String) :
    Steady (writerAt files origin between moment shard).disk
        (writerAt files origin between moment shard).pending ∧
      KeepsCursor (writerAt files origin between moment shard).disk
        (writerAt files origin between (moment + 1) shard).disk := by
  have hsteady : Steady (writerAt files origin between moment shard).disk
      (writerAt files origin between moment shard).pending := by
    induction moment with
    | zero => exact (@run_keeps (files shard) ⟨origin shard, []⟩ trivial
        (between 0 shard)).1
    | succ moment ih => exact (run_keeps ih (between (moment + 1) shard)).1
  exact ⟨hsteady, (run_keeps hsteady (between (moment + 1) shard)).2⟩

/-- Over a directory at rest, the shards with a cursor: all that have a record
to read, and besides only what cannot be read, or has a cursor over nothing.
Under writers, whatever had a record when the listing began and any of its
names among the entries. -/
theorem listing_complete (root : String) (text : ListingText) :
    (∀ (dir : LedgerDir) (look : Looks) (list : List String)
        (start later : ℕ),
      (∀ turn shard disk, look turn shard = .ok disk →
        disk = dir.disk shard) →
      listShards root text look (.ok dir.entries) start =
        .ok (list, later) →
      list.Pairwise (fun left right => compare left right = .lt) ∧
      (∀ shard, shard ∈ list ↔ shard ≠ "" ∧
        ((dir.disk shard).headCursor.isSome ∨
          (dir.disk shard).legacyCursor.isSome)) ∧
      (∀ shard held, shardHistory root text (dir.disk shard) shard =
        .ok held → held.records ≠ [] → shard ∈ list) ∧
      ∀ shard ∈ list, ∀ held, shardHistory root text (dir.disk shard) shard =
        .ok held → held.records = [] → (dir.disk shard).Hollow) ∧
    ∀ (files : String → ShardFiles) (origin : String → ShardDisk)
        (between : ℕ → String → List WriterStep) (look : Looks)
        (names list : List String) (later : ℕ),
      (∀ turn shard disk, look turn shard = .ok disk →
        disk = (writerAt files origin between (turn + 2) shard).disk) →
      (∀ shard kind, dataFileName shard kind ∈ names →
        (writerAt files origin between 1 shard).disk.Has kind) →
      listShards root text look (.ok (some names)) 0 = .ok (list, later) →
      list.Pairwise (fun left right => compare left right = .lt) ∧
      ∀ shard held, shardHistory root text
          (writerAt files origin between 0 shard).disk shard = .ok held →
        held.records ≠ [] →
        (∃ kind, dataFileName shard kind ∈ names) → shard ∈ list := by
  constructor
  · intro dir look list start later hlook hlist
    obtain ⟨result, rfl, hlists⟩ := listShards_eq_ok hlist
    have hmem : ∀ shard, shard ∈ result.toList ↔ shard ≠ "" ∧
        ((dir.disk shard).headCursor.isSome ∨
          (dir.disk shard).legacyCursor.isSome) := by
      intro shard
      rw [Std.ExtTreeSet.mem_toList]
      constructor
      · intro hmem
        obtain ⟨hne, turn, disk, hdisk, hstated⟩ := hlists.stated hmem
        rw [hlook turn shard disk hdisk] at hstated
        exact ⟨hne, hstated⟩
      · rintro ⟨_, hhead | hlegacy⟩
        · exact hlists.mem_of_headCursor hlook hhead
        · exact hlists.mem_of_legacyCursor hlook hlegacy
    refine ⟨pairwise_toList result, hmem, ?_, ?_⟩
    · intro shard held hread hrecords
      obtain ⟨files, hfiles, hread'⟩ := read_of_shardHistory hread
      rw [hmem]
      constructor
      · rintro rfl
        cases hfiles
      · rcases headed_or_converting hread' hrecords with
          hheaded | hconverting
        · exact Or.inl (headCursor_of_headed hheaded)
        · exact Or.inr (legacyCursor_of_converting hconverting)
    · intro shard hshard held hread hempty
      obtain ⟨files, _, hread'⟩ := read_of_shardHistory hread
      exact hollow_of_read hread' hempty ((hmem shard).mp hshard).2
  · intro files origin between look names list later hlook hnames hlist
    obtain ⟨result, rfl, hlists⟩ := listShards_eq_ok hlist
    refine ⟨pairwise_toList result, ?_⟩
    rintro shard held hread hrecords ⟨kind, hname⟩
    obtain ⟨_, _, hread'⟩ := read_of_shardHistory hread
    have hkeeps := fun moment =>
      (writerAt_keeps files origin between moment shard).2
    have hfollows : TurnReads look shard fun turn =>
        (writerAt files origin between (turn + 2) shard).disk :=
      ⟨fun turn disk hdisk => hlook turn shard disk hdisk,
        fun turn => hkeeps (turn + 2)⟩
    have hbegun := headed_or_converting hread' hrecords
    have hnamed : (writerAt files origin between 1 shard).disk.Headed ∨
        (writerAt files origin between 1 shard).disk.Converting := by
      rcases hbegun with hheaded | hconverting
      · exact Or.inl ((hkeeps 0).headed hheaded)
      · exact ((hkeeps 0).converting hconverting).symm
    obtain ⟨files', listed, turn, _, _, hlisted, hmem⟩ :=
      hlists.judged_file hname
    rw [Std.ExtTreeSet.mem_toList]
    apply hmem
    apply hfollows.lists _ (Nat.zero_le turn) _ hlisted
    · rcases hnamed with hheaded | hconverting
      · exact Or.inl ((hkeeps 1).headed hheaded)
      · exact ((hkeeps 1).converting hconverting).symm
    · rintro rfl
      -- a head among the entries was there when they were read
      rcases hnamed with hheaded | ⟨_, _, habsent, _⟩
      · exact (hkeeps 1).headed hheaded
      · exact absurd habsent (hnames shard .head hname)

/-! ## A sample -/

/-- One shard with one record, and its log next to it. -/
def auditedDisk : ShardDisk where
  shardFile := .holds .moved
  head := .holds ⟨some ⟨1, "h0", none⟩, 2⟩
  log := some [123, 10]

/-- The shard of one name has the files, and no other has any. -/
def oneShard (disk : ShardDisk) (shard : String) : ShardDisk :=
  if shard = "a" then disk else {}

def oneShardLook (disk : ShardDisk) : Looks :=
  fun _ shard => .ok (oneShard disk shard)

def sampleText : ListingText where
  quoted stem := stem
  utf8Error _ := "invalid utf-8 sequence"

theorem dataFileName_injective {shard other : String} {kind kind' : DataFile}
    (hsame : dataFileName shard kind = dataFileName other kind') :
    shard = other ∧ kind = kind' := by
  have hdata := congrArg dataFile hsame
  rw [dataFileName, dataFileName, dataFile_append, dataFile_append,
    Option.some.injEq, Prod.mk.injEq] at hdata
  obtain ⟨hhex, hkind⟩ := hdata
  exact ⟨ByteText.encode_injective (HexText.encode_injective hhex), hkind⟩

/-- A directory with some files of one shard. -/
def oneShardDir (disk : ShardDisk) (kinds : List DataFile)
    (hkinds : ∀ kind, disk.Has kind ↔ kind ∈ kinds) : LedgerDir where
  entries := some (kinds.map (dataFileName "a"))
  disk := oneShard disk
  entry shard kind := by
    have hname : dataFileName shard kind ∈ kinds.map (dataFileName "a") ↔
        shard = "a" ∧ kind ∈ kinds := by
      rw [List.mem_map]
      constructor
      · rintro ⟨other, hmem, hsame⟩
        obtain ⟨hshard, hkind⟩ := dataFileName_injective hsame
        exact ⟨hshard.symm, hkind ▸ hmem⟩
      · rintro ⟨rfl, hmem⟩
        exact ⟨kind, hmem, rfl⟩
    rw [Option.getD_some, hname, ← hkinds]
    by_cases hshard : shard = "a"
    · simp [oneShard, hshard]
    · cases kind <;> simp [oneShard, hshard, ShardDisk.Has]

def auditedDir : LedgerDir :=
  oneShardDir auditedDisk [.shard, .head, .log] (by
    intro kind
    cases kind <;> simp [auditedDisk, ShardDisk.Has])

/-- A shard in the earlier layout. -/
def earlierDisk : ShardDisk where
  shardFile := .holds (.legacy ⟨some ⟨1, "h0", none⟩, [⟨0, "\x7b\x7d"⟩]⟩)

/-- An append converts the shard between the second read and the third. -/
def conversion (moment : ℕ) (_ : String) : List WriterStep :=
  if moment = 0 then [.start (appendSection "\x7b\x7d")]
  else if moment = 3 then List.replicate 20 .advance
  else []

def conversionLook : Looks :=
  fun turn shard => .ok (writerAt (fun _ => sampleFiles)
    (oneShard earlierDisk) conversion (turn + 2) shard).disk

theorem listing_complete_sample :
    (∃ list later, listShards "ledger" sampleText (oneShardLook auditedDisk)
      (.ok auditedDir.entries) 0 = .ok (list, later) ∧ "a" ∈ list) ∧
    ∃ list later, listShards "ledger" sampleText conversionLook
      (.ok (some [dataFileName "a" .shard])) 0 = .ok (list, later) ∧
      "a" ∈ list := by
  obtain ⟨hrest, hrace⟩ := listing_complete "ledger" sampleText
  constructor
  · have hlist : listShards "ledger" sampleText (oneShardLook auditedDisk)
        (.ok auditedDir.entries) 0 = .ok (["a"], 4) :=
      by decide +kernel
    have hheld : shardHistory "ledger" sampleText auditedDisk "a" =
        .ok ⟨some ⟨1, "h0", none⟩, [⟨0, "\x7b"⟩]⟩ := by decide +kernel
    obtain ⟨_, _, hcomplete, _⟩ := hrest auditedDir
      (oneShardLook auditedDisk) ["a"] 0 4
      (fun _ _ _ hlook => (Except.ok.inj hlook).symm) hlist
    exact ⟨["a"], 4, hlist, hcomplete "a" _ hheld (by simp)⟩
  · have hlist : listShards "ledger" sampleText conversionLook
        (.ok (some [dataFileName "a" .shard])) 0 = .ok (["a"], 3) :=
      by decide +kernel
    have hheld : shardHistory "ledger" sampleText
        (writerAt (fun _ => sampleFiles) (oneShard earlierDisk) conversion 0
          "a").disk "a" = .ok ⟨some ⟨1, "h0", none⟩, [⟨0, "\x7b\x7d"⟩]⟩ := by
      decide +kernel
    obtain ⟨_, hcomplete⟩ := hrace (fun _ => sampleFiles)
      (oneShard earlierDisk) conversion conversionLook
      [dataFileName "a" .shard] ["a"] 3
      (fun _ _ _ hlook => (Except.ok.inj hlook).symm)
      (by
        intro shard kind hname
        obtain ⟨rfl, rfl⟩ :=
          dataFileName_injective (List.mem_singleton.mp hname)
        have hfile : (writerAt (fun _ => sampleFiles) (oneShard earlierDisk)
            conversion 1 "a").disk = earlierDisk := by decide +kernel
        rw [hfile]
        simp [ShardDisk.Has, earlierDisk]) hlist
    exact ⟨["a"], 3, hlist, hcomplete "a" _ hheld (by simp)
      ⟨.shard, by simp⟩⟩

/-- The head and the marker of a shard whose log is gone. -/
def unloggedDisk : ShardDisk :=
  { auditedDisk with log := none }

def unloggedDir : LedgerDir :=
  oneShardDir unloggedDisk [.shard, .head] (by
    intro kind
    cases kind <;> simp [unloggedDisk, auditedDisk, ShardDisk.Has])

/-- What is listed need not read: a head is judged without its log. -/
theorem listed_without_history :
    ¬ ∀ (dir : LedgerDir) (look : Looks) (list : List String)
        (start later : ℕ),
      (∀ turn shard disk, look turn shard = .ok disk →
        disk = dir.disk shard) →
      listShards "ledger" sampleText look (.ok dir.entries) start =
        .ok (list, later) →
      ∀ shard, shard ∈ list ↔ ∃ held, shardHistory "ledger" sampleText
        (dir.disk shard) shard = .ok held ∧ held.records ≠ [] := by
  intro hclaim
  have hlist : listShards "ledger" sampleText (oneShardLook unloggedDisk)
      (.ok unloggedDir.entries) 0 = .ok (["a"], 2) :=
    by decide +kernel
  obtain ⟨held, hheld, _⟩ := (hclaim unloggedDir (oneShardLook unloggedDisk)
    ["a"] 0 2 (fun _ _ _ hlook => (Except.ok.inj hlook).symm) hlist
    "a").mp (by simp)
  have hnone : (shardHistory "ledger" sampleText unloggedDisk
      "a").toOption.map Shard.records = none := by decide +kernel
  have hread : shardHistory "ledger" sampleText unloggedDisk "a" =
      .ok held := hheld
  rw [hread] at hnone
  cases hnone

end Decern
