import Decern.PrefixReads
import Decern.SegmentRuns
import Decern.StatePassage
import Mathlib.Tactic

/-!
# What a disk holds while it is written

A call changes the disk in steps: a manifest is renamed into place, a segment
is created, a line is written a byte at a time.  Between two steps a reader
finds the bytes that were there and some of the next ones.
-/

namespace Decern

open ByteText (Bytes newline)
open LineText (cut joined)

variable (P : Platform)

/-! ## One file -/

/-- A file while one line is written to it. -/
def lineMoments (file line : Bytes) (fault : Option WriteFault) :
    List Bytes :=
  let written := match fault with
    | some (.torn written _) => written
    | _ => line.length
  (List.range (written + 1)).map fun count => file ++ line.take count

def Ledger.moments (ledger : Ledger) (file : Bytes) (entry : Entry)
    (fault : Option WriteFault) : List Bytes :=
  if ledger.failed then []
  else
    lineMoments file (recordLine P (ledger.sealNext P entry) ++ [newline])
      fault

/-- The file goes through these, each longer than the one before. -/
abbrev FileGrows : Bytes → List Bytes → Bytes → Prop :=
  Passage (· <+: ·)

theorem bytes_grow_from (file line : Bytes) (start count : ℕ) :
    FileGrows (file ++ line.take start)
      ((List.range' (start + 1) count).map fun count =>
        file ++ line.take count)
      (file ++ line.take (start + count)) := by
  induction count generalizing start with
  | zero => exact .done _
  | succ count ih =>
      rw [List.range'_succ, List.map_cons]
      refine .next ?_ ?_
      · rw [List.prefix_append_right_inj]
        exact List.take_prefix_take_left (by omega)
      · have hrest := ih (start + 1)
        rwa [show start + 1 + count = start + (count + 1) by omega] at hrest

theorem bytes_grow (file line : Bytes) (written : ℕ) :
    FileGrows file ((List.range (written + 1)).map fun count =>
      file ++ line.take count) (file ++ line.take written) := by
  have hgrows := bytes_grow_from file line 0 written
  rw [Nat.zero_add, Nat.zero_add] at hgrows
  rw [List.range_eq_range', List.range'_succ, List.map_cons]
  exact .next (by simp) hgrows

/-- An append's last moment is the file it leaves. -/
theorem Ledger.moments_grow (ledger : Ledger) (path : String)
    (file : Bytes) (entry : Entry) (fault : Option WriteFault) :
    FileGrows file (ledger.moments P file entry fault)
      (ledger.append P path file entry fault).2.1 := by
  have hwhole : ∀ line : Bytes,
      FileGrows file ((List.range (line.length + 1)).map fun count =>
        file ++ line.take count) (file ++ line) := by
    intro line
    have hgrows := bytes_grow file line line.length
    rwa [List.take_length] at hgrows
  unfold Ledger.moments Ledger.append
  split_ifs
  · exact .done file
  · unfold lineMoments Ledger.writeLine
    rcases fault with _ | ⟨written, err⟩ | err
    · exact hwhole _
    · exact bytes_grow file _ written
    · simp only
      split_ifs <;> exact hwhole _

theorem Ledger.moments_ne_nil {ledger : Ledger} (hlive : ledger.failed = false)
    (file : Bytes) (entry : Entry) (fault : Option WriteFault) :
    ledger.moments P file entry fault ≠ [] := by
  unfold Ledger.moments lineMoments
  rw [if_neg (by simp [hlive])]
  simp

/-! ## A directory -/

/-- A file's name and its complete lines. -/
def LedgerFile.lines (file : LedgerFile) : String × List Bytes :=
  (file.path, (cut newline file.content).1)

/-- The lines of a layout, by file. -/
def layoutRegion (blocks : List SealedFile) (active : SegmentMeta)
    (content : Bytes) : Region :=
  blocks.map (fun block => (block.path, block.lines)) ++
    [(active.file, (cut newline content).1)]

/-- The directory is laid out, with these lines in these files. -/
def Directory.Lists (dir : Directory) (region : Region) : Prop :=
  ∃ manifest done active blocks content,
    Layout dir manifest done active blocks content ∧
      region = layoutRegion blocks active content

section Lists

variable {dir next : Directory} {region later : Region} {manifest : Manifest}
  {done : List SegmentMeta} {active : SegmentMeta}
  {blocks : List SealedFile} {content : Bytes}

theorem layoutRegion_files (hcomplete : Complete blocks) :
    layoutRegion blocks active content =
      (blocks.map SealedFile.file ++ [LedgerFile.mk active.file content]).map
        LedgerFile.lines := by
  unfold layoutRegion
  rw [List.map_append, List.map_map]
  congr 1
  apply List.map_congr_left
  intro block hblock
  simp [SealedFile.file, LedgerFile.lines,
    LineText.cut_joined newline (hcomplete block hblock)]

theorem Directory.Lists.eq_of_layout (hlists : dir.Lists region)
    (hlayout : Layout dir manifest done active blocks content) :
    region = layoutRegion blocks active content := by
  rcases hlists with ⟨_, _, _, _, _, hother, rfl⟩
  have hfiles := hother.paths.symm.trans hlayout.paths
  rw [layoutRegion_files hother.holds.complete,
    layoutRegion_files hlayout.holds.complete, Except.ok.inj hfiles]

theorem Directory.Lists.ne_nil (hlists : dir.Lists region) : region ≠ [] := by
  rcases hlists with ⟨_, _, _, _, _, _, rfl⟩
  simp [layoutRegion]

theorem Directory.Lists.complete (hlists : dir.Lists region) :
    ∀ file ∈ region, ∀ stored ∈ file.2, newline ∉ stored := by
  rcases hlists with ⟨_, _, _, blocks, _, hlayout, rfl⟩
  intro file hfile stored hstored
  rcases List.mem_append.mp hfile with hsealed | hactive
  · rcases List.mem_map.mp hsealed with ⟨block, hblock, rfl⟩
    exact hlayout.holds.complete block hblock stored hstored
  · rw [List.mem_singleton.mp hactive] at hstored
    exact LineText.sep_notMem_of_mem_cut newline hstored

theorem Directory.Lists.shows (hlists : dir.Lists region) :
    Shows region dir.read := by
  rcases hlists with ⟨_, _, _, blocks, content, hlayout, rfl⟩
  unfold layoutRegion
  rw [shows_append (by simp)]
  constructor
  · intro file hfile
    rcases List.mem_map.mp hfile with ⟨block, hblock, rfl⟩
    exact hlayout.holds.stored block hblock
  · exact ⟨(cut newline content).2, by
      rw [hlayout.holds.current, LineText.joined_cut_append_tail]⟩

/-- The manifest names the region's files. -/
theorem Directory.Lists.listed (hlists : dir.Lists region) :
    ∃ manifest, loadManifest none dir = .ok (some manifest) ∧
      manifest.segments.map SegmentMeta.file = region.map Prod.fst := by
  rcases hlists with ⟨manifest, _, _, _, _, hlayout, rfl⟩
  refine ⟨manifest, hlayout.shape.load hlayout.saved hlayout.segments, ?_⟩
  rw [hlayout.segments, List.map_append, ← hlayout.holds.paths]
  simp [layoutRegion]

/-- What may happen to a directory while its ledger is written. -/
structure Directory.Onward (dir next : Directory) : Prop where
  grows : Files.Grow dir.read next.read
  onto : ∀ region, dir.Lists region →
    ∃ later, next.Lists later ∧ region.Onto later

instance : IsPreorder Directory Directory.Onward where
  refl dir :=
    { grows := Files.Grow.refl dir.read
      onto := fun region hlists =>
        ⟨region, hlists, Region.Onto.refl hlists.ne_nil⟩ }
  trans _ _ _ hfirst hsecond :=
    { grows := hfirst.grows.trans hsecond.grows
      onto := by
        intro region hlists
        rcases hfirst.onto region hlists with ⟨later, hlater, honto⟩
        rcases hsecond.onto later hlater with ⟨last, hlast, hmore⟩
        exact ⟨last, hlast, honto.trans hmore⟩ }

/-- The moments a directory goes through. -/
abbrev DirectoryGrows : Directory → List Directory → Directory → Prop :=
  Passage Directory.Onward

theorem Files.Grow.write {name : String} {bytes : Bytes}
    (hname : ∀ held, dir.read name = some held → held <+: bytes) :
    Files.Grow dir.read (dir.write name bytes).read := by
  intro path held hheld
  rw [Directory.read_write]
  split_ifs with hsame
  · subst hsame
    rcases hname held hheld with ⟨more, rfl⟩
    exact ⟨more, rfl⟩
  · exact ⟨[], by rw [List.append_nil]; exact hheld⟩

theorem onward_of_layout (hlayout : Layout dir manifest done active blocks
      content)
    (hgrows : Files.Grow dir.read next.read) (hnext : next.Lists later)
    (honto : (layoutRegion blocks active content).Onto later) :
    dir.Onward next where
  grows := hgrows
  onto := by
    intro region hlists
    rw [hlists.eq_of_layout hlayout]
    exact ⟨later, hnext, honto⟩

theorem Layout.lists (hlayout : Layout dir manifest done active blocks
      content) :
    dir.Lists (layoutRegion blocks active content) :=
  ⟨_, _, _, _, _, hlayout, rfl⟩

/-- The active segment's file is written on. -/
theorem Layout.onward_write
    (hlayout : Layout dir manifest done active blocks content) {bytes : Bytes}
    (hbytes : content <+: bytes) :
    dir.Onward (dir.write active.file bytes) := by
  apply onward_of_layout hlayout _ (hlayout.write bytes).lists
  · rcases LineText.cut_fst_mono newline hbytes with ⟨more, hmore⟩
    exact ⟨blocks.map fun block => (block.path, block.lines), active.file,
      (cut newline content).1, more, [], rfl, by rw [hmore]; rfl⟩
  · apply Files.Grow.write
    intro held hheld
    rw [hlayout.holds.current] at hheld
    rw [← Option.some.inj hheld]
    exact hbytes

theorem Layout.onward_overwrite
    (hlayout : Layout dir manifest done active blocks content)
    {held bytes : Bytes} (hbytes : held <+: bytes) :
    (dir.write active.file held).Onward (dir.write active.file bytes) := by
  apply onward_of_layout (hlayout.write held) _ (hlayout.write bytes).lists
  · rcases LineText.cut_fst_mono newline hbytes with ⟨more, hmore⟩
    exact ⟨blocks.map fun block => (block.path, block.lines), active.file,
      (cut newline held).1, more, [], rfl, by rw [hmore]; rfl⟩
  · intro path found hfound
    rw [Directory.read_write] at hfound ⊢
    split_ifs at hfound ⊢
    · rcases hbytes with ⟨more, rfl⟩
      exact ⟨more, by rw [← Option.some.inj hfound]⟩
    · exact ⟨[], by rw [List.append_nil]; exact hfound⟩

/-- A file the manifest does not name is created. -/
theorem Layout.onward_create
    (hlayout : Layout dir manifest done active blocks content) {file : String}
    (hfile : dir.read file = none) (bytes : Bytes) :
    dir.Onward (dir.write file bytes) := by
  apply onward_of_layout hlayout _ (hlayout.create hfile bytes).lists
    (Region.Onto.refl hlayout.lists.ne_nil)
  apply Files.Grow.write
  intro held hheld
  rw [hfile] at hheld
  cases hheld

/-- The manifest is renamed into place with another date. -/
theorem Layout.onward_rebase
    (hlayout : Layout dir manifest done active blocks content)
    {rebased : Manifest} (tsMs : UInt64)
    (hrebased : rebased.segments =
      done ++ [{ active with openedMs := tsMs }]) :
    dir.Onward { dir with manifest := some rebased } := by
  have hsame : Files.Grow dir.read
      ({ dir with manifest := some rebased } : Directory).read :=
    Files.Grow.refl dir.read
  exact onward_of_layout hlayout hsame (hlayout.rebase tsMs hrebased).lists
    (Region.Onto.refl hlayout.lists.ne_nil)

/-- The manifest is renamed into place with one more segment. -/
theorem Layout.onward_roll
    (hlayout : Layout dir manifest done active blocks content)
    {lines : List Bytes} (hcontent : content = joined newline lines)
    (hlines : ∀ line ∈ lines, newline ∉ line) {file : String} {index : ℕ}
    (hindex : validateSegmentFilename file = .ok index)
    (hfile : file ∉ (done ++ [active]).map SegmentMeta.file)
    (hempty : dir.read file = some []) {rolled : Manifest} {seq : ℕ}
    {tsMs opened : UInt64}
    (hrolled : rolled.segments =
      done ++ [{ active with openedMs := opened, endSeq := some seq }] ++
        [{ file := file
           startSeq := seq
           endSeq := none
           openedMs := tsMs }]) :
    dir.Onward { dir with manifest := some rolled } := by
  have hsame : Files.Grow dir.read
      ({ dir with manifest := some rolled } : Directory).read :=
    Files.Grow.refl dir.read
  apply onward_of_layout hlayout hsame
    (hlayout.roll hcontent hlines hindex hfile hempty hrolled).lists
  refine ⟨blocks.map fun block => (block.path, block.lines), active.file,
    lines, [], [(file, [])], ?_, ?_⟩
  · rw [layoutRegion, hcontent, LineText.cut_joined newline hlines]
  · simp [layoutRegion]

end Lists

/-! ## A segmented ledger's calls -/

namespace SegmentedLedger

/-- The directories a rollover leaves on its way. -/
def rollMoments (fault : Option SegmentFault) (dir : Directory)
    (handle : SegmentedLedger) (nextTsMs : UInt64) : List Directory :=
  match rollOverPrepared fault dir handle.manifest handle.ledger.nextSeq
      nextTsMs with
  | (created, .error _) => [created]
  | (created, .ok (rolled, _)) =>
      [created, (saveManifest fault created rolled).1]

def prepareMoments (fault : Option SegmentFault) (dir : Directory)
    (handle : SegmentedLedger) (tsMs : UInt64) : List Directory :=
  let currentBytes := match SegmentFault.at fault .metadata with
    | some _ => 0
    | none => ((dir.read handle.activeFile).getD []).length
  if handle.shouldRollOver currentBytes tsMs then
    handle.rollMoments fault dir tsMs ++
      match handle.rollOver fault dir tsMs with
      | (_, _, .error _) => []
      | (dir, handle, .ok ()) => [(handle.rebase fault dir tsMs).1]
  else [(handle.rebase fault dir tsMs).1]

def moments (fault : Option SegmentFault) (writeFault : Option WriteFault)
    (dir : Directory) (handle : SegmentedLedger) (entry : Entry) :
    List Directory :=
  if handle.ledger.failed then []
  else
    handle.prepareMoments fault dir entry.tsMs ++
      match handle.prepare fault dir entry.tsMs with
      | (_, _, .error _) => []
      | (dir, handle, .ok ()) =>
          (handle.ledger.moments P ((dir.read handle.activeFile).getD [])
            entry writeFault).map (dir.write handle.activeFile)

end SegmentedLedger

end Decern
