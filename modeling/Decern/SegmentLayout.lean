import Decern.LedgerRecovery
import Decern.SegmentLedger
import Mathlib.Tactic

/-!
# The layout of a segment directory

The lines of a directory are those of its sealed segments, which always end
with one, followed by the active segment's.  A rollover moves the boundary and
no line; a write touches the active segment only.
-/

namespace Decern

open ByteText (Bytes newline)
open LineText (cut joined terminatedPrefix)

variable (P : Platform)

/-! ## Files whose lines are complete -/

/-- A sealed segment's file and its lines. -/
structure SealedFile where
  path : String
  lines : List Bytes

def SealedFile.file (sealed : SealedFile) : LedgerFile :=
  ⟨sealed.path, joined newline sealed.lines⟩

/-- The lines of sealed files, in order. -/
def sealedLines (blocks : List SealedFile) : List Bytes :=
  blocks.flatMap SealedFile.lines

/-- Every line of the sealed files is a line. -/
def Complete (blocks : List SealedFile) : Prop :=
  ∀ block ∈ blocks, ∀ line ∈ block.lines, newline ∉ line

theorem Complete.sealedLines {blocks : List SealedFile}
    (hblocks : Complete blocks) :
    ∀ line ∈ sealedLines blocks, newline ∉ line := by
  intro line hline
  obtain ⟨block, hblock, hmem⟩ := List.mem_flatMap.mp hline
  exact hblocks block hblock line hmem

theorem flatMap_content_sealed (blocks : List SealedFile) :
    (blocks.map SealedFile.file).flatMap LedgerFile.content =
      joined newline (sealedLines blocks) := by
  induction blocks with
  | nil => rfl
  | cons block rest ih =>
      rw [List.map_cons, List.flatMap_cons, ih]
      simp [sealedLines, SealedFile.file]

theorem physicalLines_joined {lines : List Bytes}
    (hlines : ∀ line ∈ lines, newline ∉ line) :
    physicalLines (joined newline lines) = lines := by
  have hcut := LineText.cut_joined newline hlines
  rw [physicalLines_of_tail_eq_nil (by rw [hcut]), hcut]

/-- The lines read from sealed files and a last one, up to its torn tail. -/
theorem readAs_prefixLines {blocks : List SealedFile}
    (hblocks : Complete blocks) (last : LedgerFile) :
    ReadAs (sealedLines blocks ++ (cut newline last.content).1)
      (prefixLines (blocks.map SealedFile.file ++ [last])).1 := by
  have htorn : (prefixLines (blocks.map SealedFile.file ++ [last])).1 =
      untilUnread (eachLine (scanTornTail last.content)
        (blocks.map SealedFile.file ++ [last])) := by
    simp [prefixLines, chainedLinesBounded]
  rw [htorn]
  induction blocks with
  | nil =>
      rw [List.map_nil, List.nil_append, eachLine_single]
      exact readAs_map last.path _
  | cons block rest ih =>
      have hrest : Complete rest :=
        fun other hother => hblocks other (by simp [hother])
      have hblock := hblocks block (by simp)
      have hsplit : eachLine (scanTornTail last.content)
          ((block :: rest).map SealedFile.file ++ [last]) =
            block.lines.map (decodeLine block.path) ++
              eachLine (scanTornTail last.content)
                (rest.map SealedFile.file ++ [last]) := by
        rw [← physicalLines_joined hblock]
        cases rest with
        | nil => rfl
        | cons next others => rfl
      have hlines : sealedLines (block :: rest) =
          block.lines ++ sealedLines rest := rfl
      rw [hsplit, hlines, List.append_assoc]
      exact readAs_map_append block.path block.lines
        (ih hrest (by simp [prefixLines, chainedLinesBounded]))

/-! ## Manifests a writer leaves -/

/-- Sealed segments in order and one active segment after them. -/
structure Shape (done : List SegmentMeta) (active : SegmentMeta) : Prop where
  named : ∀ segment ∈ done ++ [active],
    ∃ index, validateSegmentFilename segment.file = .ok index
  distinct : ((done ++ [active]).map SegmentMeta.file).Nodup
  starts : ((done ++ [active]).head?.map SegmentMeta.startSeq) = some 0
  ended : ∀ segment ∈ done, segment.endSeq.isSome
  unsealed : active.endSeq = none
  handsOver : contiguous (done ++ [active]) = .ok ()

theorem contiguous_cons_cons (segment next : SegmentMeta)
    (rest : List SegmentMeta) :
    contiguous (segment :: next :: rest) = .ok () ↔
      segment.endSeq = some next.startSeq ∧
        contiguous (next :: rest) = .ok () := by
  rw [contiguous]
  split
  case isTrue heq => simp [heq]
  case isFalse hne => simp [hne]

/-- Only where the last segment starts matters to the ones before it. -/
theorem contiguous_replace {done : List SegmentMeta}
    (last other : SegmentMeta) (hstart : other.startSeq = last.startSeq)
    (more : List SegmentMeta)
    (hmore : contiguous (other :: more) = .ok ())
    (hdone : contiguous (done ++ [last]) = .ok ()) :
    contiguous (done ++ other :: more) = .ok () := by
  induction done with
  | nil => exact hmore
  | cons segment rest ih =>
      cases rest with
      | nil =>
          rw [List.cons_append, List.nil_append,
            contiguous_cons_cons] at hdone ⊢
          exact ⟨by rw [hstart]; exact hdone.1, hmore⟩
      | cons next others =>
          rw [List.cons_append, List.cons_append,
            contiguous_cons_cons] at hdone ⊢
          exact ⟨hdone.1, ih hdone.2⟩

theorem changeActive_append {done : List SegmentMeta} {active : SegmentMeta}
    (change : SegmentMeta → SegmentMeta)
    (hended : ∀ segment ∈ done, segment.endSeq.isSome)
    (hunsealed : active.endSeq = none) :
    changeActive change (done ++ [active]) = done ++ [change active] := by
  induction done with
  | nil => simp [changeActive, hunsealed]
  | cons segment rest ih =>
      have hsegment := hended segment (by simp)
      have hnone : segment.endSeq.isNone = false := by
        simpa using hsegment
      rw [List.cons_append, changeActive, hnone,
        ih fun other hother => hended other (by simp [hother])]
      rfl

theorem Shape.active {done : List SegmentMeta} {active : SegmentMeta}
    (hshape : Shape done active) {manifest : Manifest}
    (hsegments : manifest.segments = done ++ [active]) :
    manifest.active = some active := by
  have hdone : done.find? (fun segment => segment.endSeq.isNone) = none := by
    rw [List.find?_eq_none]
    intro segment hsegment
    simpa [← Option.isSome_iff_ne_none] using hshape.ended segment hsegment
  rw [Manifest.active, hsegments, List.find?_append, hdone]
  simp [hshape.unsealed]

theorem Shape.validate {done : List SegmentMeta} {active : SegmentMeta}
    (hshape : Shape done active) {manifest : Manifest}
    (hsegments : manifest.segments = done ++ [active]) :
    validateManifestShape manifest = .ok () := by
  have hcount : ((done ++ [active]).filter fun segment =>
      segment.endSeq.isNone).length = 1 := by
    have hdone : (done.filter fun segment => segment.endSeq.isNone) = [] := by
      rw [List.filter_eq_nil_iff]
      intro segment hsegment
      simpa [← Option.isSome_iff_ne_none] using
        hshape.ended segment hsegment
    rw [List.filter_append, hdone]
    simp [hshape.unsealed]
  have hlast : (done ++ [active]).getLast? = some active := by simp
  have hstarts := hshape.starts
  have hhands := hshape.handsOver
  unfold validateManifestShape
  rw [hsegments]
  cases hlist : done ++ [active] with
  | nil => simp at hlist
  | cons first rest =>
      rw [hlist] at hcount hlast hstarts hhands
      simp only [List.head?_cons, Option.map_some, Option.some.injEq]
        at hstarts
      simp [hcount, hlast, hstarts, hshape.unsealed, hhands]

theorem mapM_eq_ok {α β : Type} {f : α → Except LedgerError β}
    {items : List α} (hitems : ∀ item ∈ items, ∃ value, f item = .ok value) :
    ∃ values, items.mapM f = .ok values := by
  induction items with
  | nil => exact ⟨[], rfl⟩
  | cons item rest ih =>
      obtain ⟨value, hvalue⟩ := hitems item (by simp)
      obtain ⟨values, hvalues⟩ :=
        ih fun other hother => hitems other (by simp [hother])
      exact ⟨value :: values, by
        simp [List.mapM_cons, hvalue, hvalues, bind, Except.bind, pure,
          Except.pure]⟩

/-- Such a manifest is loaded. -/
theorem Shape.load {done : List SegmentMeta} {active : SegmentMeta}
    (hshape : Shape done active) {manifest : Manifest} {dir : Directory}
    (hmanifest : dir.manifest = some manifest)
    (hsegments : manifest.segments = done ++ [active]) :
    loadManifest none dir = .ok (some manifest) := by
  obtain ⟨indices, hindices⟩ := mapM_eq_ok hshape.named
  unfold loadManifest
  rw [hmanifest]
  simp only [SegmentFault.at_none, hsegments, hindices,
    hshape.validate hsegments]

/-- A rollover seals the active segment and starts the next. -/
theorem Shape.roll {done : List SegmentMeta} {active : SegmentMeta}
    (hshape : Shape done active) {file : String} {index : ℕ}
    (hfile : validateSegmentFilename file = .ok index)
    (hfresh : file ∉ (done ++ [active]).map SegmentMeta.file)
    (seq : ℕ) (tsMs : UInt64) :
    Shape (done ++ [{ active with endSeq := some seq }])
      { file := file, startSeq := seq, endSeq := none, openedMs := tsMs } where
  named := by
    intro segment hsegment
    simp only [List.mem_append, List.mem_singleton] at hsegment
    rcases hsegment with (hdone | rfl) | rfl
    · exact hshape.named segment (by simp [hdone])
    · exact hshape.named active (by simp)
    · exact ⟨index, hfile⟩
  distinct := by
    have hsame : (done ++ [{ active with endSeq := some seq }]).map
        SegmentMeta.file = (done ++ [active]).map SegmentMeta.file := by simp
    rw [List.map_append, hsame]
    apply List.nodup_append.mpr
    refine ⟨hshape.distinct, by simp, ?_⟩
    intro left hleft right hright heq
    rw [List.map_singleton, List.mem_singleton] at hright
    subst hright
    exact hfresh (heq ▸ hleft)
  starts := by
    have hstarts := hshape.starts
    cases done with
    | nil => simpa using hstarts
    | cons first rest => simpa using hstarts
  ended := by
    intro segment hsegment
    rcases List.mem_append.mp hsegment with hdone | hlast
    · exact hshape.ended segment hdone
    · rw [List.mem_singleton.mp hlast]
      rfl
  unsealed := rfl
  handsOver := by
    rw [List.append_assoc, List.singleton_append]
    apply contiguous_replace active { active with endSeq := some seq } rfl
    · rw [contiguous_cons_cons]
      exact ⟨rfl, rfl⟩
    · exact hshape.handsOver

theorem Shape.rebase {done : List SegmentMeta} {active : SegmentMeta}
    (hshape : Shape done active) (tsMs : UInt64) :
    Shape done { active with openedMs := tsMs } where
  named := by
    intro segment hsegment
    rcases List.mem_append.mp hsegment with hdone | hlast
    · exact hshape.named segment (by simp [hdone])
    · rw [List.mem_singleton.mp hlast]
      exact hshape.named active (by simp)
  distinct := by simpa using hshape.distinct
  starts := by
    have hstarts := hshape.starts
    cases done <;> simpa using hstarts
  ended := hshape.ended
  unsealed := hshape.unsealed
  handsOver :=
    contiguous_replace active { active with openedMs := tsMs } rfl [] rfl
      hshape.handsOver

/-! ## The directory's content -/

/-- The sealed segments hold complete lines, and the active one `content`. -/
structure Holds (dir : Directory) (done : List SegmentMeta)
    (active : SegmentMeta) (blocks : List SealedFile) (content : Bytes) :
    Prop where
  paths : blocks.map SealedFile.path = done.map SegmentMeta.file
  stored : ∀ block ∈ blocks,
    dir.read block.path = some (joined newline block.lines)
  complete : Complete blocks
  current : dir.read active.file = some content

theorem segmentFiles_append {dir : Directory} {done : List SegmentMeta}
    {blocks : List SealedFile} (more : List SegmentMeta)
    (hpaths : blocks.map SealedFile.path = done.map SegmentMeta.file)
    (hstored : ∀ block ∈ blocks,
      dir.read block.path = some (joined newline block.lines)) :
    segmentFiles dir (done ++ more) =
      (segmentFiles dir more).map (blocks.map SealedFile.file ++ ·) := by
  induction done generalizing blocks with
  | nil =>
      rw [List.map_nil, List.map_eq_nil_iff] at hpaths
      subst hpaths
      cases h : segmentFiles dir more <;> simp [h, Except.map]
  | cons segment rest ih =>
      cases blocks with
      | nil => simp at hpaths
      | cons block others =>
          simp only [List.map_cons, List.cons.injEq] at hpaths
          have hread := hstored block (by simp)
          rw [hpaths.1] at hread
          rw [List.cons_append, segmentFiles, hread]
          simp only
          rw [ih hpaths.2 fun other hother => hstored other (by simp [hother])]
          cases segmentFiles dir more with
          | error error => rfl
          | ok files =>
              simp [Except.map, SealedFile.file, hpaths.1]

theorem Holds.files {dir : Directory} {done : List SegmentMeta}
    {active : SegmentMeta} {blocks : List SealedFile} {content : Bytes}
    (hholds : Holds dir done active blocks content) :
    segmentFiles dir (done ++ [active]) =
      .ok (blocks.map SealedFile.file ++ [⟨active.file, content⟩]) := by
  rw [segmentFiles_append [active] hholds.paths hholds.stored]
  simp [segmentFiles, hholds.current, Except.map]

/-- A directory as a writer leaves it. -/
structure Layout (dir : Directory) (manifest : Manifest)
    (done : List SegmentMeta) (active : SegmentMeta)
    (blocks : List SealedFile) (content : Bytes) : Prop where
  saved : dir.manifest = some manifest
  segments : manifest.segments = done ++ [active]
  shape : Shape done active
  holds : Holds dir done active blocks content

namespace Layout

variable {dir : Directory} {manifest : Manifest} {done : List SegmentMeta}
  {active : SegmentMeta} {blocks : List SealedFile} {content : Bytes}

theorem paths (hlayout : Layout dir manifest done active blocks content) :
    segmentPaths dir =
      .ok (blocks.map SealedFile.file ++ [⟨active.file, content⟩]) := by
  unfold segmentPaths
  rw [hlayout.shape.load hlayout.saved hlayout.segments]
  simp only [hlayout.segments]
  exact hlayout.holds.files

theorem lines (hlayout : Layout dir manifest done active blocks content) :
    dir.lines = sealedLines blocks ++ (cut newline content).1 := by
  unfold Directory.lines
  rw [hlayout.paths]
  simp only [List.flatMap_append, List.flatMap_singleton]
  congr 1
  have hcomplete := hlayout.holds.complete
  clear hlayout
  induction blocks with
  | nil => rfl
  | cons block rest ih =>
      have hcut := LineText.cut_joined newline (hcomplete block (by simp))
      rw [List.map_cons, List.flatMap_cons,
        ih fun other hother => hcomplete other (by simp [hother])]
      simp [sealedLines, SealedFile.file, hcut]

/-- The sealed files' bytes and the active segment's. -/
theorem bytes (hlayout : Layout dir manifest done active blocks content) :
    ∃ files, segmentPaths dir = .ok files ∧
      files.flatMap LedgerFile.content =
        joined newline (sealedLines blocks) ++ content := by
  refine ⟨_, hlayout.paths, ?_⟩
  rw [List.flatMap_append, flatMap_content_sealed, List.flatMap_singleton]

theorem read_ne_none
    (hlayout : Layout dir manifest done active blocks content)
    {file : String} (hfile : dir.read file = none) :
    file ∉ (done ++ [active]).map SegmentMeta.file := by
  intro hmem
  rw [List.map_append, List.mem_append, ← hlayout.holds.paths] at hmem
  rcases hmem with hdone | hactive
  · obtain ⟨block, hblock, rfl⟩ := List.mem_map.mp hdone
    rw [hlayout.holds.stored block hblock] at hfile
    cases hfile
  · rw [List.map_singleton, List.mem_singleton] at hactive
    rw [hactive, hlayout.holds.current] at hfile
    cases hfile

theorem active_notMem
    (hlayout : Layout dir manifest done active blocks content) :
    ∀ block ∈ blocks, block.path ≠ active.file := by
  intro block hblock heq
  have hdistinct := hlayout.shape.distinct
  rw [List.map_append, ← hlayout.holds.paths, List.map_singleton] at hdistinct
  have hdisjoint := (List.nodup_append.mp hdistinct).2.2
  exact hdisjoint block.path (List.mem_map_of_mem hblock) active.file
    (by simp) heq

/-- Writing the active segment changes nothing else. -/
theorem write (hlayout : Layout dir manifest done active blocks content)
    (next : Bytes) :
    Layout (dir.write active.file next) manifest done active blocks next where
  saved := hlayout.saved
  segments := hlayout.segments
  shape := hlayout.shape
  holds :=
    { paths := hlayout.holds.paths
      stored := by
        intro block hblock
        rw [Directory.read_write,
          if_neg (hlayout.active_notMem block hblock)]
        exact hlayout.holds.stored block hblock
      complete := hlayout.holds.complete
      current := by rw [Directory.read_write, if_pos rfl] }

/-- A file no manifest names changes nothing. -/
theorem create (hlayout : Layout dir manifest done active blocks content)
    {file : String} (hfile : dir.read file = none) (bytes : Bytes) :
    Layout (dir.write file bytes) manifest done active blocks content where
  saved := hlayout.saved
  segments := hlayout.segments
  shape := hlayout.shape
  holds :=
    { paths := hlayout.holds.paths
      stored := by
        intro block hblock
        have hne : block.path ≠ file := by
          rintro rfl
          rw [hlayout.holds.stored block hblock] at hfile
          cases hfile
        rw [Directory.read_write, if_neg hne]
        exact hlayout.holds.stored block hblock
      complete := hlayout.holds.complete
      current := by
        have hne : active.file ≠ file := by
          rintro rfl
          rw [hlayout.holds.current] at hfile
          cases hfile
        rw [Directory.read_write, if_neg hne]
        exact hlayout.holds.current }

theorem rebase (hlayout : Layout dir manifest done active blocks content)
    {next : Manifest} (tsMs : UInt64)
    (hnext : next.segments = done ++ [{ active with openedMs := tsMs }]) :
    Layout { dir with manifest := some next } next done
      { active with openedMs := tsMs } blocks content where
  saved := rfl
  segments := hnext
  shape := hlayout.shape.rebase tsMs
  holds :=
    { paths := hlayout.holds.paths
      stored := hlayout.holds.stored
      complete := hlayout.holds.complete
      current := hlayout.holds.current }

/-- The commit of a rollover; the handle's own `opened_ms` goes with it. -/
theorem roll (hlayout : Layout dir manifest done active blocks content)
    {lines : List Bytes} (hcontent : content = joined newline lines)
    (hlines : ∀ line ∈ lines, newline ∉ line) {file : String} {index : ℕ}
    (hindex : validateSegmentFilename file = .ok index)
    (hfile : file ∉ (done ++ [active]).map SegmentMeta.file)
    (hempty : dir.read file = some []) {next : Manifest} {seq : ℕ}
    {tsMs opened : UInt64}
    (hnext : next.segments =
      done ++ [{ active with openedMs := opened, endSeq := some seq }] ++
        [{ file := file
           startSeq := seq
           endSeq := none
           openedMs := tsMs }]) :
    Layout { dir with manifest := some next } next
      (done ++ [{ active with openedMs := opened, endSeq := some seq }])
      { file := file, startSeq := seq, endSeq := none, openedMs := tsMs }
      (blocks ++ [⟨active.file, lines⟩]) [] where
  saved := rfl
  segments := hnext
  shape := (hlayout.shape.rebase opened).roll hindex (by simpa using hfile)
    seq tsMs
  holds :=
    { paths := by simp [hlayout.holds.paths]
      stored := by
        intro block hblock
        rcases List.mem_append.mp hblock with hbefore | hlast
        · exact hlayout.holds.stored block hbefore
        · rw [List.mem_singleton.mp hlast, ← hcontent]
          exact hlayout.holds.current
      complete := by
        intro block hblock
        rcases List.mem_append.mp hblock with hbefore | hlast
        · exact hlayout.holds.complete block hbefore
        · rw [List.mem_singleton.mp hlast]
          exact hlines
      current := hempty }

end Layout

end Decern
