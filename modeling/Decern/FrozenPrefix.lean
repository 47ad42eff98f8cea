import Decern.SegmentStore
import Mathlib.Tactic

/-!
# A prefix is frozen

A prefix taken from a live handle gives the records there were, whatever the
handle writes before and between the reads and wherever its writes fail.
-/

namespace Decern

open ByteText (Bytes newline)
open LineText (cut joined)

variable (P : Platform)

/-! ## Reads drawn from a history -/

/-- The files as they are at some moment from `time` on. -/
def FoundFrom (history : List Directory) (time : ℕ) (files : Files) : Prop :=
  ∃ later dir, time ≤ later ∧ history[later]? = some dir ∧ files = dir.read

/-- What a call of `lines` finds in a directory that goes through `history`:
the manifest first, then whether its segments are there, the last one's
length, and after that its end, the scan and the lines. -/
structure PrefixReads.Drawn (history : List Directory) (listed measured : ℕ)
    (reads : PrefixReads) : Prop where
  manifest : history[listed]? = some reads.listed
  present : ∀ index, FoundFrom history listed (reads.present index)
  length : ∃ dir, listed ≤ measured ∧ history[measured]? = some dir ∧
    reads.length = dir.read
  last : FoundFrom history measured reads.last
  chunk : ∀ pos, FoundFrom history measured (reads.chunk pos)
  line : ∀ moment, FoundFrom history measured (reads.line moment)

theorem presentPaths_ok {present : ℕ → Files} {index : ℕ}
    {segments : List SegmentMeta}
    (hpresent : ∀ index, ∀ segment ∈ segments,
      ∃ bytes, present index segment.file = some bytes) :
    presentPaths present index segments =
      .ok (segments.map SegmentMeta.file) := by
  induction segments generalizing index with
  | nil => rfl
  | cons segment rest ih =>
      rcases hpresent index segment (by simp) with ⟨bytes, hbytes⟩
      unfold presentPaths
      rw [hbytes]
      simp only
      rw [ih fun index other hother => hpresent index other (by simp [hother])]
      rfl

theorem Shows.isSome {region : Region} {files : Files}
    (hshows : Shows region files) :
    ∀ path ∈ region.map Prod.fst, ∃ bytes, files path = some bytes := by
  induction region with
  | nil => simp
  | cons file region ih =>
      rcases file with ⟨name, lines⟩
      intro path hpath
      rw [List.map_cons, List.mem_cons] at hpath
      rcases hpath with rfl | hrest
      · rcases hshows.first with ⟨more, hmore, _⟩
        exact ⟨_, hmore⟩
      · exact ih hshows.tail path hrest

section Segmented

variable {start last : Directory} {moments : List Directory}
  {region : Region} {listed measured : ℕ} {reads : PrefixReads}

/-- A directory found later still shows what was listed. -/
theorem FoundFrom.shows (hgrows : DirectoryGrows start moments last)
    {time later : ℕ} {dir : Directory} {files : Files}
    (hdir : (start :: moments)[time]? = some dir) (hlists : dir.Lists region)
    (hle : time ≤ later) (hfound : FoundFrom (start :: moments) later files) :
    Shows region files := by
  rcases hfound with ⟨moment, found, hmoment, hat, rfl⟩
  have honward := hgrows.ordered hdir hat (by omega)
  rcases honward.onto region hlists with ⟨next, hnext, honto⟩
  exact honto.shows hnext.shows

theorem FoundFrom.grow (hgrows : DirectoryGrows start moments last)
    {time : ℕ} {dir : Directory} {files : Files}
    (hdir : (start :: moments)[time]? = some dir)
    (hfound : FoundFrom (start :: moments) time files) :
    Files.Grow dir.read files := by
  rcases hfound with ⟨moment, found, hmoment, hat, rfl⟩
  exact (hgrows.ordered hdir hat hmoment).grows

/-- The records counted when the prefix was taken are what it gives. -/
theorem segmented_lines_frozen (hgrows : DirectoryGrows start moments last)
    (hlists : start.Lists region) {texts : List String}
    (htexts : regionLines region = texts.map Except.ok)
    (hdrawn : reads.Drawn (start :: moments) listed measured) :
    ∃ bound, ∀ turns, bound ≤ turns →
      Prefix.lines { location := .segmented
                     count := (texts.filter notBlank).length } turns reads =
        some (.ok (texts.filter notBlank)) := by
  have hlisted := hdrawn.manifest
  rcases (hgrows.from_start hlisted).onto region hlists with
    ⟨later, hlater, honto⟩
  rcases honto.regionLines with ⟨others, hothers⟩
  rcases hlater.listed with ⟨manifest, hload, hfiles⟩
  rcases hdrawn.length with ⟨dir, hle, hdir, hlength⟩
  have hshown : ∀ {time files}, listed ≤ time →
      FoundFrom (start :: moments) time files → Shows later files :=
    fun hle hfound => FoundFrom.shows hgrows hlisted hlater hle hfound
  refine ⟨(regionLines later).length + 2 * later.length + 2,
    fun turns hturns => ?_⟩
  refine @Prefix.lines_shown _ _ later texts others turns ?_ hlater.ne_nil
    hlater.complete ?_ ?_ ?_ ?_ rfl hturns
  · simp only [PrefixReads.resolvedPaths, hload]
    rw [presentPaths_ok, hfiles]
    intro index segment hsegment
    apply (hshown (Nat.le_refl _) (hdrawn.present index)).isSome
    rw [← hfiles]
    exact List.mem_map_of_mem hsegment
  · exact hshown hle ⟨measured, dir, Nat.le_refl _, hdir, hlength⟩
  · intro pos
    rw [hlength]
    exact FoundFrom.grow hgrows hdir (hdrawn.chunk pos)
  · exact fun moment => hshown hle (hdrawn.line moment)
  · rw [← hothers, htexts]

end Segmented

/-! ## Segmented ledgers -/

/-- `Ledger::prefix` of a segmented ledger. -/
def SegmentedLedger.takePrefix (handle : SegmentedLedger) : Prefix where
  location := .segmented
  count := handle.ledger.nextSeq

/-- Reading the prefix gives the records among the stored lines, all it
counts. -/
def Prefix.Gives (taken : Prefix) (path : String) (stored : List Bytes)
    (reads : PrefixReads) : Prop :=
  ∃ texts : List String, stored.map (decodeLine path) = texts.map Except.ok ∧
    (texts.filter notBlank).length = taken.count ∧
    ∃ bound, ∀ turns, bound ≤ turns →
      taken.lines turns reads = some (.ok (texts.filter notBlank))

/-- A prefix of a segmented ledger is what was there when it was taken. -/
theorem segmented_prefix_frozen {dir : Directory} {handle : SegmentedLedger}
    {calls : List SegmentCall} {reads : PrefixReads} {listed measured : ℕ}
    (hattached : Attached P dir handle)
    (hlive : handle.ledger.failed = false)
    (hdrawn : reads.Drawn (dir :: SegmentCall.history P dir handle calls)
      listed measured) :
    handle.takePrefix.Gives "" dir.lines reads := by
  have hgrows := (hattached.calls P calls).1
  rcases hattached with ⟨manifest, done, active, blocks, content, hlayout,
    hwriter⟩
  rcases (hwriter hlive).numbered with ⟨texts, htexts, hcount⟩
  have hlines := regionLines_texts.mp htexts
  rw [layoutRegion_lines, ← hlayout.lines] at hlines
  refine ⟨texts, hlines, hcount, ?_⟩
  have hfrozen := segmented_lines_frozen hgrows hlayout.lists htexts hdrawn
  rwa [hcount] at hfrozen

/-- Reads that find one manifest, and one directory after it. -/
def PrefixReads.found (listed dir : Directory) : PrefixReads where
  listed := listed
  present _ := dir.read
  length := dir.read
  last := dir.read
  chunk _ := dir.read
  line _ := dir.read

theorem PrefixReads.drawn_found {history : List Directory}
    {listed dir : Directory} {time later : ℕ}
    (hlisted : history[time]? = some listed)
    (hdir : history[later]? = some dir) (hle : time ≤ later) :
    (PrefixReads.found listed dir).Drawn history time later where
  manifest := hlisted
  present _ := ⟨later, dir, hle, hdir, rfl⟩
  length := ⟨dir, hle, hdir, rfl⟩
  last := ⟨later, dir, Nat.le_refl _, hdir, rfl⟩
  chunk _ := ⟨later, dir, Nat.le_refl _, hdir, rfl⟩
  line _ := ⟨later, dir, Nat.le_refl _, hdir, rfl⟩

/-! ## Single-file ledgers -/

/-- A ledger's file by itself. -/
def Directory.alone (path : String) (content : Bytes) : Directory where
  manifest := none
  files := [(path, content)]

@[simp] theorem Directory.read_alone (path : String) (content : Bytes) :
    (Directory.alone path content).read path = some content := by
  simp [Directory.alone, Directory.read]

theorem Directory.alone_grow {path : String} {content next : Bytes}
    (hgrows : content <+: next) :
    Files.Grow (Directory.alone path content).read
      (Directory.alone path next).read := by
  intro name held hheld
  by_cases hname : name = path
  · subst hname
    rcases hgrows with ⟨more, rfl⟩
    rw [Directory.read_alone] at hheld ⊢
    exact ⟨more, by rw [← Option.some.inj hheld]⟩
  · have hother : (name == path) = false := by simpa using hname
    simp [Directory.alone, Directory.read, List.lookup_cons, hother] at hheld

section Single

variable {path : String} {start last : Bytes} {moments : List Bytes}
  {lines : List Bytes} {listed measured : ℕ} {reads : PrefixReads}

/-- Every later view of a file shows the lines it started with. -/
theorem FoundFrom.alone (hgrows : FileGrows start moments last)
    (hstart : joined newline lines <+: start) {time : ℕ} {files : Files}
    (hfound : FoundFrom ((start :: moments).map (Directory.alone path)) time
      files) :
    Shows [(path, lines)] files := by
  rcases hfound with ⟨later, dir, _, hdir, rfl⟩
  rw [List.getElem?_map, Option.map_eq_some_iff] at hdir
  rcases hdir with ⟨content, hcontent, rfl⟩
  rcases hstart.trans (hgrows.from_start hcontent) with ⟨more, hmore⟩
  exact ⟨more, by rw [Directory.read_alone, ← hmore]⟩

theorem single_lines_frozen (hgrows : FileGrows start moments last)
    (hstart : joined newline lines <+: start)
    (hlines : ∀ line ∈ lines, newline ∉ line) {texts : List String}
    (htexts : lines.map (decodeLine path) = texts.map Except.ok)
    (hdrawn : reads.Drawn ((start :: moments).map (Directory.alone path))
      listed measured) :
    ∃ bound, ∀ turns, bound ≤ turns →
      Prefix.lines { location := .single path
                     count := (texts.filter notBlank).length } turns reads =
        some (.ok (texts.filter notBlank)) := by
  rcases hdrawn.length with ⟨dir, _, hdir, hlength⟩
  have hregion : regionLines [(path, lines)] = texts.map Except.ok := by
    simpa [regionLines] using htexts
  refine ⟨(regionLines [(path, lines)]).length + 2 + 2, fun turns hturns => ?_⟩
  refine @Prefix.lines_shown _ _ [(path, lines)] texts [] turns rfl (by simp)
    ?_ ?_ ?_ ?_ (by simpa using hregion) rfl (by simpa using hturns)
  · intro file hfile
    rw [List.mem_singleton.mp hfile]
    exact hlines
  · exact FoundFrom.alone hgrows hstart ⟨measured, dir, Nat.le_refl _, hdir,
      hlength⟩
  · intro pos
    rcases hdrawn.chunk pos with ⟨later, other, hle, hother, hchunk⟩
    rw [hlength, hchunk]
    rw [List.getElem?_map, Option.map_eq_some_iff] at hdir hother
    rcases hdir with ⟨content, hcontent, rfl⟩
    rcases hother with ⟨next, hnext, rfl⟩
    exact Directory.alone_grow (hgrows.ordered hcontent hnext hle)
  · exact fun moment => FoundFrom.alone hgrows hstart (hdrawn.line moment)

end Single

end Decern
