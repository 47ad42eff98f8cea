import Decern.SegmentLayout
import Mathlib.Tactic

/-!
# Segmented crash safety

Every file operation of a segmented ledger leaves a layout over the same
lines: a rollover moves a boundary, a rebase a date, a write some bytes of the
next record.  Reopening finds the handle's lines and at most the record in
flight.  The one directory no open accepts is a first segment without a
manifest.
-/

namespace Decern

open ByteText (Bytes newline)
open LineText (cut joined terminatedPrefix)

variable (P : Platform)

/-! ## What a handle stores -/

/-- The handle's lines, and after them at most a beginning of the record it
would write for the pending entry. -/
structure Ledger.Stores (ledger : Ledger) (lines : List Bytes)
    (pending : Option Entry) (content : Bytes) : Prop where
  counts : ledger.Counts P "" lines
  complete : ∀ line ∈ lines, newline ∉ line
  live : ledger.failed = false → content = joined newline lines
  left : ∃ left, content = joined newline lines ++ left ∧
    (left = [] ∨ ∃ entry written, pending = some entry ∧
      entry.WithinLimit ∧ left = (recordLine P (ledger.sealNext P entry) ++
        [newline]).take written)

namespace Ledger.Stores

variable {ledger : Ledger} {lines : List Bytes} {pending : Option Entry}
  {content : Bytes}

/-- Nothing is pending on a live handle. -/
theorem forget (hstores : ledger.Stores P lines pending content)
    (hlive : ledger.failed = false) (other : Option Entry) :
    ledger.Stores P lines other content where
  counts := hstores.counts
  complete := hstores.complete
  live := hstores.live
  left := ⟨[], by rw [hstores.live hlive, List.append_nil], Or.inl rfl⟩

theorem fail (hstores : ledger.Stores P lines pending content) :
    ({ ledger with failed := true } : Ledger).Stores P lines pending
      content where
  counts := ⟨hstores.counts.state, hstores.counts.own, hstores.counts.free⟩
  complete := hstores.complete
  live := fun hlive => by cases hlive
  left := hstores.left

theorem advance (hstores : ledger.Stores P lines pending content)
    (hlive : ledger.failed = false) {entry : Entry}
    (hentry : entry.WithinLimit) (other : Option Entry) :
    (ledger.advance P entry).Stores P
      (lines ++ [recordLine P (ledger.sealNext P entry)]) other
      (content ++ (recordLine P (ledger.sealNext P entry) ++ [newline])) := by
  have hcontent : content ++
      (recordLine P (ledger.sealNext P entry) ++ [newline]) =
        joined newline
          (lines ++ [recordLine P (ledger.sealNext P entry)]) := by
    rw [hstores.live hlive]
    simp
  constructor
  · exact hstores.counts.advance P hentry
  · intro line hline
    rcases List.mem_append.mp hline with hbefore | hlast
    · exact hstores.complete line hbefore
    · rw [List.mem_singleton.mp hlast]
      exact newline_notMem_recordLine P _
  · exact fun _ => hcontent
  · exact ⟨[], by rw [hcontent, List.append_nil], Or.inl rfl⟩

theorem torn (hstores : ledger.Stores P lines pending content)
    (hlive : ledger.failed = false) {entry : Entry}
    (hentry : entry.WithinLimit) (written : ℕ) :
    ({ ledger with failed := true } : Ledger).Stores P lines (some entry)
      (content ++ (recordLine P (ledger.sealNext P entry) ++
        [newline]).take written) where
  counts := ⟨hstores.counts.state, hstores.counts.own, hstores.counts.free⟩
  complete := hstores.complete
  live := fun hlive => by cases hlive
  left := ⟨_, by rw [hstores.live hlive]; rfl,
    Or.inr ⟨entry, written, rfl, hentry, rfl⟩⟩

/-- One append to the file that follows the sealed ones. -/
theorem append {sealedBytes active : Bytes}
    {entry : Entry}
    (hstores : ledger.Stores P lines (some entry) (sealedBytes ++ active))
    (hentry : entry.WithinLimit) (path : String)
    (fault : Option WriteFault) :
    match ledger.append P path active entry fault with
    | (after, file, .ok record) =>
        after.Stores P (lines ++ [recordLine P record]) none
          (sealedBytes ++ file)
    | (after, file, .error _) =>
        after.Stores P lines (some entry) (sealedBytes ++ file) := by
  rcases ledger.append_cases P path active entry fault with
    ⟨_, hresult⟩ | ⟨hlive, hresult⟩ | ⟨hlive, written, err, hresult⟩
  · rw [hresult]
    exact hstores
  · rw [hresult]
    simp only
    rw [← List.append_assoc]
    exact hstores.advance P hlive hentry none
  · rw [hresult]
    simp only
    rw [← List.append_assoc]
    exact hstores.torn P hlive hentry written

/-- What a reader finds: the handle's lines and at most one record in
flight. -/
theorem survivors (hstores : ledger.Stores P lines pending content) :
    ∃ entries : List Entry, entries <+: pending.toList ∧
      (∀ entry ∈ entries, entry.WithinLimit) ∧
      (cut newline content).1 = lines ++ ledger.inFlight P entries ∧
      ((cut newline content).2 = [] ∨
        (cut newline content).2.head? = some 123) := by
  obtain ⟨left, rfl, rfl | ⟨entry, written, rfl, hentry, rfl⟩⟩ :=
    hstores.left
  · refine ⟨[], List.nil_prefix, by simp, ?_, ?_⟩
    · rw [List.append_nil, LineText.cut_joined newline hstores.complete]
      simp [Ledger.inFlight, Ledger.sealAll]
    · rw [List.append_nil, LineText.cut_joined newline hstores.complete]
      exact Or.inl rfl
  · rw [LineText.cut_joined_append newline hstores.complete]
    have hline := newline_notMem_recordLine P (ledger.sealNext P entry)
    by_cases hwhole : (recordLine P (ledger.sealNext P entry) ++
        [newline]).length ≤ written
    · refine ⟨[entry], by simp, by simpa using hentry, ?_, ?_⟩
      · rw [List.take_of_length_le hwhole, LineText.cut_line_append newline
          hline]
        simp [Ledger.inFlight, Ledger.sealAll]
      · rw [List.take_of_length_le hwhole, LineText.cut_line_append newline
          hline]
        exact Or.inl rfl
    · have hpart : (recordLine P (ledger.sealNext P entry) ++
          [newline]).take written =
            (recordLine P (ledger.sealNext P entry)).take written := by
        rw [List.length_append, List.length_singleton] at hwhole
        exact List.take_append_of_le_length (by omega)
      have hfree : newline ∉
          (recordLine P (ledger.sealNext P entry)).take written :=
        fun hmem => hline (List.mem_of_mem_take hmem)
      rw [hpart, LineText.cut_eq_of_notMem newline hfree]
      refine ⟨[], List.nil_prefix, by simp, ?_, ?_⟩
      · simp [Ledger.inFlight, Ledger.sealAll]
      · exact begins_of_isPrefix P (List.take_prefix _ _)

/-- A heal keeps what is stored. -/
theorem healed (hstores : ledger.Stores P lines pending content) :
    ledger.Stores P lines pending (terminatedPrefix newline content) := by
  obtain ⟨left, hcontent, hleft⟩ := hstores.left
  constructor
  · exact hstores.counts
  · exact hstores.complete
  · intro hlive
    rw [hstores.live hlive, terminatedPrefix,
      LineText.cut_joined newline hstores.complete]
  · rw [hcontent, terminatedPrefix,
      LineText.cut_joined_append newline hstores.complete,
      LineText.joined_append]
    refine ⟨_, rfl, ?_⟩
    rcases hleft with rfl | ⟨entry, written, hpending, hentry, rfl⟩
    · exact Or.inl rfl
    · have hline := newline_notMem_recordLine P (ledger.sealNext P entry)
      obtain ⟨kept, hkept⟩ := LineText.terminatedPrefix_isPrefix newline
        ((recordLine P (ledger.sealNext P entry) ++ [newline]).take written)
      refine Or.inr ⟨entry, (terminatedPrefix newline
        ((recordLine P (ledger.sealNext P entry) ++
          [newline]).take written)).length, hpending, hentry, ?_⟩
      have hstart : terminatedPrefix newline
          ((recordLine P (ledger.sealNext P entry) ++
            [newline]).take written) <+:
          recordLine P (ledger.sealNext P entry) ++ [newline] :=
        List.IsPrefix.trans
          (LineText.terminatedPrefix_isPrefix newline _)
          (List.take_prefix _ _)
      exact List.prefix_iff_eq_take.mp hstart

end Ledger.Stores

/-! ## Opening -/

theorem terminatedPrefix_sealed {blocks : List SealedFile}
    (hblocks : Complete blocks) (content : Bytes) :
    terminatedPrefix newline (joined newline (sealedLines blocks) ++ content) =
      joined newline (sealedLines blocks) ++
        terminatedPrefix newline content := by
  rw [terminatedPrefix, LineText.cut_joined_append newline
    hblocks.sealedLines, LineText.joined_append]
  rfl

/-- An open works on the active segment alone. -/
theorem openManifest_eq {dir : Directory} {manifest : Manifest}
    {done : List SegmentMeta} {active : SegmentMeta}
    {blocks : List SealedFile} {content : Bytes}
    (hlayout : Layout dir manifest done active blocks content)
    (openFault : Option OpenFault) (key : SigningKey)
    (verifiers : List VerifyingKey) (policy : RolloverPolicy)
    {anchor : Option (Option Bytes)} :
    openManifest P openFault dir manifest key verifiers policy anchor =
      match resolveOpenHead P openFault (blocks.map SealedFile.file)
          active.file content verifiers (P.verifyingKey key) anchor with
      | (healed, .error error) =>
          (dir.write active.file healed, .error error)
      | (healed, .ok report) =>
          match failsAt openFault .append with
          | some err =>
              (dir.write active.file healed, .error (.io active.file err))
          | none =>
              (dir.write active.file healed, .ok
                { ledger := Ledger.opened key verifiers report.root
                    report.entries report.signers
                  policy := policy
                  manifest := manifest
                  activeFile := active.file }) := by
  unfold openManifest resolveSegments
  rw [hlayout.shape.active hlayout.segments, hlayout.paths]
  simp only [List.getLast?_append, List.getLast?_singleton, Option.some_or,
    List.dropLast_concat]
  generalize resolveOpenHead P openFault (blocks.map SealedFile.file)
    active.file content verifiers (P.verifyingKey key) anchor = result
  obtain ⟨healed, outcome⟩ := result
  cases outcome <;> rfl

/-- What an open of a laid out directory leaves. -/
theorem openManifest_layout {dir after : Directory} {manifest : Manifest}
    {done : List SegmentMeta} {active : SegmentMeta}
    {blocks : List SealedFile} {content : Bytes}
    (hlayout : Layout dir manifest done active blocks content)
    {openFault : Option OpenFault} {key : SigningKey}
    {retired : List VerifyingKey} {policy : RolloverPolicy}
    {anchor : Option (Option Bytes)}
    {result : Except LedgerError SegmentedLedger}
    (hopen : openManifest P openFault dir manifest key
      (keyring P key retired) policy anchor = (after, result)) :
    ∃ left, (left = content ∨ left = terminatedPrefix newline content) ∧
      Layout after manifest done active blocks left ∧
      ∀ handle, result = .ok handle →
        left = terminatedPrefix newline content ∧
        handle.manifest = manifest ∧ handle.activeFile = active.file ∧
        handle.ledger.failed = false ∧
        handle.ledger.Counts P ""
          (sealedLines blocks ++ (cut newline content).1) := by
  rw [openManifest_eq P hlayout] at hopen
  have hcontent := resolveOpenHead_content P openFault
    (blocks.map SealedFile.file) active.file content (keyring P key retired)
    (P.verifyingKey key) anchor
  generalize hresolve : resolveOpenHead P openFault
    (blocks.map SealedFile.file) active.file content (keyring P key retired)
    (P.verifyingKey key) anchor = resolved at hopen hcontent
  obtain ⟨healed, outcome⟩ := resolved
  cases outcome with
  | error error =>
      cases hopen
      refine ⟨healed, hcontent, hlayout.write healed, ?_⟩
      intro handle herror
      cases herror
  | ok report =>
      simp only at hopen
      split at hopen
      case h_1 =>
        cases hopen
        refine ⟨healed, hcontent, hlayout.write healed, ?_⟩
        intro handle herror
        cases herror
      case h_2 =>
        cases hopen
        refine ⟨healed, hcontent, hlayout.write healed, ?_⟩
        rintro handle ⟨⟩
        obtain ⟨hhealed, torn, hjudge⟩ := resolveOpenHead_ok P hresolve
        obtain ⟨state, hstate, _, hfree, rfl, _⟩ :=
          (judgeOpenHead_eq_ok_iff P).mp hjudge
        have hread := readAs_prefixLines hlayout.holds.complete
          ⟨active.file, content⟩
        have hcounted := (verifyState_readAs P hread "").mp hstate
        exact ⟨hhealed, rfl, rfl, rfl,
          Ledger.opened_counts P hcounted (keyring_mem P key retired) hfree⟩

theorem loadManifest_fault (fault : Option SegmentFault) (dir : Directory) :
    (∃ error, loadManifest fault dir = .error error) ∨
      loadManifest fault dir = loadManifest none dir := by
  unfold loadManifest
  cases SegmentFault.at fault .readManifest with
  | some err => exact Or.inl ⟨_, rfl⟩
  | none => exact Or.inr rfl

/-- An open of a laid out directory stops before it touches it, or works with
its manifest. -/
theorem openSegmentedInner_layout {dir : Directory} {manifest : Manifest}
    {done : List SegmentMeta} {active : SegmentMeta}
    {blocks : List SealedFile} {content : Bytes}
    (hlayout : Layout dir manifest done active blocks content)
    (fault : Option SegmentFault) (openFault : Option OpenFault)
    (key : SigningKey) (retired : List VerifyingKey)
    (policy : RolloverPolicy) :
    (∃ error, openSegmentedInner P fault openFault dir key retired policy
        none = (dir, .error error)) ∨
      openSegmentedInner P fault openFault dir key retired policy none =
        openManifest P openFault dir manifest key (keyring P key retired)
          policy none := by
  have hload := hlayout.shape.load hlayout.saved hlayout.segments
  unfold openSegmentedInner manifestToOpen
  cases SegmentFault.at fault .createDir with
  | some err => exact Or.inl ⟨_, rfl⟩
  | none =>
      rcases loadManifest_fault fault dir with ⟨error, herror⟩ | hsame
      · rw [herror]
        exact Or.inl ⟨_, rfl⟩
      · rw [hsame, hload]
        exact Or.inr rfl

/-! ## Rolling over and rebasing -/

/-- The handle writes to the manifest's active segment; only when that was
opened may differ. -/
def SegmentedLedger.Agrees (handle : SegmentedLedger)
    (done : List SegmentMeta) (active : SegmentMeta) : Prop :=
  handle.activeFile = active.file ∧ ∃ opened,
    handle.manifest.segments = done ++ [{ active with openedMs := opened }]

/-- A directory and the handle on it. -/
structure Kept (dir : Directory) (handle : SegmentedLedger)
    (lines : List Bytes) (pending : Option Entry) : Prop where
  layout : ∃ manifest done active blocks content,
    Layout dir manifest done active blocks content ∧
    handle.ledger.Stores P lines pending
      (joined newline (sealedLines blocks) ++ content) ∧
    (handle.ledger.failed = false → handle.Agrees done active)

theorem Kept.forget {dir : Directory} {handle : SegmentedLedger}
    {lines : List Bytes} {pending : Option Entry}
    (hkept : Kept P dir handle lines pending)
    (hlive : handle.ledger.failed = false) (other : Option Entry) :
    Kept P dir handle lines other := by
  obtain ⟨manifest, done, active, blocks, content, hlayout, hstores,
    hagrees⟩ := hkept.layout
  exact ⟨manifest, done, active, blocks, content, hlayout,
    hstores.forget P hlive other, hagrees⟩

/-- A live handle's active segment ends with a line. -/
theorem Ledger.Stores.active {ledger : Ledger} {lines : List Bytes}
    {pending : Option Entry} {blocks : List SealedFile} {content : Bytes}
    (hblocks : Complete blocks)
    (hstores : ledger.Stores P lines pending
      (joined newline (sealedLines blocks) ++ content))
    (hlive : ledger.failed = false) :
    content = joined newline (cut newline content).1 := by
  have hcut := LineText.cut_joined_append newline hblocks.sealedLines content
  rw [hstores.live hlive,
    LineText.cut_joined newline hstores.complete] at hcut
  have htail : (cut newline content).2 = [] := (congrArg Prod.snd hcut).symm
  exact ((LineText.terminatedPrefix_eq_self_iff newline content).mpr
    htail).symm

theorem changeActive_opened {done : List SegmentMeta} {active : SegmentMeta}
    (hshape : Shape done active) (opened : UInt64)
    (change : SegmentMeta → SegmentMeta) :
    changeActive change (done ++ [{ active with openedMs := opened }]) =
      done ++ [change { active with openedMs := opened }] :=
  changeActive_append change hshape.ended hshape.unsealed

theorem createSegment_cases (fault : Option SegmentFault) (dir : Directory)
    (name : String) :
    (∃ error, createSegment fault dir name = (dir, .error error)) ∨
      (dir.read name = none ∧
        createSegment fault dir name = (dir.write name [], .ok ())) := by
  unfold createSegment
  cases SegmentFault.at fault .create with
  | some err => exact Or.inl ⟨_, rfl⟩
  | none =>
      cases hread : dir.read name with
      | some content => exact Or.inl ⟨_, rfl⟩
      | none => exact Or.inr ⟨rfl, rfl⟩

/-- What a rollover's preparation leaves: at most one more empty file. -/
theorem rollOverPrepared_cases (fault : Option SegmentFault)
    (dir : Directory) (manifest : Manifest) (currentSeq : ℕ)
    (nextTsMs : UInt64) :
    (∃ error, rollOverPrepared fault dir manifest currentSeq nextTsMs =
      (dir, .error error)) ∨
    ∃ file index, validateSegmentFilename file = .ok index ∧
      dir.read file = none ∧
      ((∃ error, rollOverPrepared fault dir manifest currentSeq nextTsMs =
          (dir.write file [], .error error)) ∨
        rollOverPrepared fault dir manifest currentSeq nextTsMs =
          (dir.write file [],
            .ok (manifest.rolled file currentSeq nextTsMs, file))) := by
  unfold rollOverPrepared
  split
  case h_1 => exact Or.inl ⟨_, rfl⟩
  case h_2 index hindex =>
    split
    case isTrue => exact Or.inl ⟨_, rfl⟩
    case isFalse =>
      split
      case isTrue => exact Or.inl ⟨_, rfl⟩
      case isFalse hsmall =>
        obtain ⟨number, hnumber⟩ :=
          validateSegmentFilename_segmentFilename (not_lt.mp hsmall)
        simp only
        rcases createSegment_cases fault dir (segmentFilename (index + 1))
          with ⟨error, herror⟩ | ⟨hnone, hcreated⟩
        · rw [herror]
          exact Or.inl ⟨_, rfl⟩
        · rw [hcreated]
          refine Or.inr ⟨_, number, hnumber, hnone, ?_⟩
          simp only
          split
          case h_1 => exact Or.inl ⟨_, rfl⟩
          case h_2 =>
            split
            case h_1 => exact Or.inl ⟨_, rfl⟩
            case h_2 => exact Or.inr rfl

theorem saveManifest_cases (fault : Option SegmentFault) (dir : Directory)
    (manifest : Manifest) :
    (∃ error, saveManifest fault dir manifest =
      (dir, .error (.notLanded error))) ∨
    (∃ error, saveManifest fault dir manifest =
      ({ dir with manifest := some manifest }, .error (.landed error))) ∨
    saveManifest fault dir manifest =
      ({ dir with manifest := some manifest }, .ok ()) := by
  unfold saveManifest
  cases SegmentFault.at fault .manifestWrite with
  | some err => exact Or.inl ⟨_, rfl⟩
  | none =>
      cases SegmentFault.at fault .manifestSync with
      | some err => exact Or.inr (Or.inl ⟨_, rfl⟩)
      | none => exact Or.inr (Or.inr rfl)

theorem rollOverSegments_cases (fault : Option SegmentFault)
    (dir : Directory) (manifest : Manifest) (currentSeq : ℕ)
    (nextTsMs : UInt64) :
    (∃ error, rollOverSegments fault dir manifest currentSeq nextTsMs =
      (dir, .error { landed := false, err := error })) ∨
    ∃ file index, validateSegmentFilename file = .ok index ∧
      dir.read file = none ∧
      ((∃ error, rollOverSegments fault dir manifest currentSeq nextTsMs =
          (dir.write file [], .error { landed := false, err := error })) ∨
        (∃ error, rollOverSegments fault dir manifest currentSeq nextTsMs =
          ({ dir.write file [] with
              manifest := some (manifest.rolled file currentSeq nextTsMs) },
            .error { landed := true, err := error })) ∨
        rollOverSegments fault dir manifest currentSeq nextTsMs =
          ({ dir.write file [] with
              manifest := some (manifest.rolled file currentSeq nextTsMs) },
            .ok (manifest.rolled file currentSeq nextTsMs, file))) := by
  unfold rollOverSegments
  rcases rollOverPrepared_cases fault dir manifest currentSeq nextTsMs with
    ⟨error, herror⟩ |
      ⟨file, index, hindex, hnone, ⟨error, herror⟩ | hprepared⟩
  · rw [herror]
    exact Or.inl ⟨_, rfl⟩
  · rw [herror]
    exact Or.inr ⟨file, index, hindex, hnone, Or.inl ⟨_, rfl⟩⟩
  · rw [hprepared]
    simp only
    refine Or.inr ⟨file, index, hindex, hnone, ?_⟩
    rcases saveManifest_cases fault (dir.write file [])
        (manifest.rolled file currentSeq nextTsMs) with
      ⟨error, hsave⟩ | ⟨error, hsave⟩ | hsave
    · rw [hsave]
      exact Or.inl ⟨_, rfl⟩
    · rw [hsave]
      exact Or.inr (Or.inl ⟨_, rfl⟩)
    · rw [hsave]
      exact Or.inr (Or.inr rfl)

/-- A live handle's rollover keeps its lines, wherever it stops. -/
theorem Kept.rollOver {dir : Directory} {handle : SegmentedLedger}
    {lines : List Bytes} {pending : Option Entry}
    (hkept : Kept P dir handle lines pending)
    (hlive : handle.ledger.failed = false) (fault : Option SegmentFault)
    (nextTsMs : UInt64) :
    match handle.rollOver fault dir nextTsMs with
    | (after, next, .error _) => Kept P after next lines pending
    | (after, next, .ok ()) =>
        Kept P after next lines pending ∧ next.ledger = handle.ledger := by
  obtain ⟨manifest, done, active, blocks, content, hlayout, hstores,
    hagrees⟩ := hkept.layout
  obtain ⟨_, opened, hsegments⟩ := hagrees hlive
  unfold SegmentedLedger.rollOver
  rcases rollOverSegments_cases fault dir handle.manifest
      handle.ledger.nextSeq nextTsMs with
    ⟨error, herror⟩ | ⟨file, index, hindex, hnone, hrest⟩
  · rw [herror]
    exact hkept
  · have hcreated := hlayout.create hnone []
    have hempty : (dir.write file []).read file = some [] := by
      rw [Directory.read_write, if_pos rfl]
    have hcontent := hstores.active P hlayout.holds.complete hlive
    have hrolled : (handle.manifest.rolled file handle.ledger.nextSeq
        nextTsMs).segments =
          done ++ [{ active with
            openedMs := opened
            endSeq := some handle.ledger.nextSeq }] ++
          [{ file := file
             startSeq := handle.ledger.nextSeq
             endSeq := none
             openedMs := nextTsMs }] := by
      unfold Manifest.rolled
      rw [hsegments, changeActive_opened hlayout.shape]
    have hcommitted := hcreated.roll hcontent
      (fun line hline => LineText.sep_notMem_of_mem_cut newline hline)
      hindex (hlayout.read_ne_none hnone) hempty hrolled
    have hmoved : joined newline (sealedLines (blocks ++
        [⟨active.file, (cut newline content).1⟩])) ++ [] =
          joined newline (sealedLines blocks) ++ content := by
      rw [List.append_nil, sealedLines, List.flatMap_append,
        LineText.joined_append, List.flatMap_singleton, ← hcontent]
      rfl
    rcases hrest with ⟨error, herror⟩ | ⟨error, herror⟩ | hok
    · rw [herror]
      exact ⟨manifest, done, active, blocks, content, hcreated, hstores,
        hagrees⟩
    · rw [herror]
      refine ⟨_, _, _, _, [], hcommitted, ?_, fun hlive => by cases hlive⟩
      rw [hmoved]
      exact hstores.fail P
    · rw [hok]
      simp only
      cases SegmentFault.at fault .openNew with
      | some err =>
          refine ⟨_, _, _, _, [], hcommitted, ?_, fun hlive => by cases hlive⟩
          rw [hmoved]
          exact hstores.fail P
      | none =>
          refine ⟨⟨_, _, _, _, [], hcommitted, ?_, ?_⟩, rfl⟩
          · rw [hmoved]
            exact hstores
          · exact fun _ => ⟨rfl, nextTsMs, hrolled⟩

/-- A rebase changes a date, in memory only once it is on disk. -/
theorem Kept.rebase {dir : Directory} {handle : SegmentedLedger}
    {lines : List Bytes} {pending : Option Entry}
    (hkept : Kept P dir handle lines pending)
    (hlive : handle.ledger.failed = false) (fault : Option SegmentFault)
    (tsMs : UInt64) :
    match handle.rebase fault dir tsMs with
    | (after, next, .error _) => Kept P after next lines pending
    | (after, next, .ok ()) =>
        Kept P after next lines pending ∧ next.ledger = handle.ledger := by
  obtain ⟨manifest, done, active, blocks, content, hlayout, hstores,
    hagrees⟩ := hkept.layout
  obtain ⟨hfile, opened, hsegments⟩ := hagrees hlive
  have hrebased : (SegmentedLedger.rebased handle.manifest tsMs).segments =
      done ++ [{ active with openedMs := tsMs }] := by
    unfold SegmentedLedger.rebased
    rw [hsegments, changeActive_opened hlayout.shape]
  have hsaved := hlayout.rebase tsMs hrebased
  unfold SegmentedLedger.rebase
  split_ifs
  · rcases saveManifest_cases fault dir
        (SegmentedLedger.rebased handle.manifest tsMs) with
      ⟨error, hsave⟩ | ⟨error, hsave⟩ | hsave
    · rw [hsave]
      exact hkept
    · rw [hsave]
      exact ⟨_, _, _, _, _, hsaved, hstores, fun _ => ⟨hfile, opened,
        hsegments⟩⟩
    · rw [hsave]
      exact ⟨⟨_, _, _, _, _, hsaved, hstores, fun _ => ⟨hfile, tsMs,
        hrebased⟩⟩, rfl⟩
  · exact ⟨hkept, rfl⟩

theorem Kept.prepare {dir : Directory} {handle : SegmentedLedger}
    {lines : List Bytes} {pending : Option Entry}
    (hkept : Kept P dir handle lines pending)
    (hlive : handle.ledger.failed = false) (fault : Option SegmentFault)
    (tsMs : UInt64) :
    match handle.prepare fault dir tsMs with
    | (after, next, .error _) => Kept P after next lines pending
    | (after, next, .ok ()) =>
        Kept P after next lines pending ∧ next.ledger = handle.ledger := by
  unfold SegmentedLedger.prepare
  simp only
  split_ifs
  · have hroll := hkept.rollOver P hlive fault tsMs
    generalize handle.rollOver fault dir tsMs = result at hroll ⊢
    obtain ⟨after, next, outcome⟩ := result
    cases outcome with
    | error error => exact hroll
    | ok done =>
        obtain ⟨hnext, hsame⟩ := hroll
        have hrebase := hnext.rebase P (by rw [hsame]; exact hlive) fault tsMs
        rw [hsame] at hrebase
        exact hrebase
  · exact hkept.rebase P hlive fault tsMs

/-- One append keeps the handle's lines, and the record it returns. -/
theorem Kept.append {dir : Directory} {handle : SegmentedLedger}
    {lines : List Bytes} {pending : Option Entry}
    (hkept : Kept P dir handle lines pending)
    (fault : Option SegmentFault) (writeFault : Option WriteFault)
    {entry : Entry} (hentry : entry.WithinLimit) :
    match handle.append P fault writeFault dir entry with
    | (after, next, .ok record) =>
        Kept P after next (lines ++ [recordLine P record]) none
    | (after, next, .error _) =>
        Kept P after next lines
          (if handle.ledger.failed then pending else some entry) := by
  unfold SegmentedLedger.append
  split_ifs with hfailed
  · exact hkept
  · have hlive : handle.ledger.failed = false := by simpa using hfailed
    have hprepare := (hkept.forget P hlive (some entry)).prepare P hlive fault
      entry.tsMs
    generalize handle.prepare fault dir entry.tsMs = result at hprepare ⊢
    obtain ⟨after, next, outcome⟩ := result
    cases outcome with
    | error error => exact hprepare
    | ok done =>
        obtain ⟨hnext, hsame⟩ := hprepare
        obtain ⟨manifest, done, active, blocks, content, hlayout, hstores,
          hagrees⟩ := hnext.layout
        have hnextLive : next.ledger.failed = false := by
          rw [hsame]
          exact hlive
        obtain ⟨hfile, opened, hsegments⟩ := hagrees hnextLive
        have happend := hstores.append P hentry next.activeFile writeFault
        simp only
        rw [hfile, hlayout.holds.current, Option.getD_some]
        rw [hfile] at happend
        generalize next.ledger.append P active.file content entry
          writeFault = written at happend ⊢
        obtain ⟨ledger, file, answer⟩ := written
        cases answer with
        | error error =>
            exact ⟨_, _, _, _, _, hlayout.write file, happend,
              fun _ => ⟨rfl, opened, hsegments⟩⟩
        | ok record =>
            exact ⟨_, _, _, _, _, hlayout.write file, happend,
              fun _ => ⟨rfl, opened, hsegments⟩⟩

/-! ## Runs -/

/-- What a directory holds of a handle's lines, whichever file it has
open. -/
def OnDisk (dir : Directory) (ledger : Ledger) (lines : List Bytes)
    (pending : Option Entry) : Prop :=
  ∃ manifest done active blocks content,
    Layout dir manifest done active blocks content ∧
    ledger.Stores P lines pending
      (joined newline (sealedLines blocks) ++ content)

/-- The first segment's file is there and no manifest is. -/
def Directory.Stranded (dir : Directory) : Prop :=
  dir.manifest = none ∧ (dir.read firstSegment.file).isSome

/-- A directory no open has succeeded on. -/
def Unopened (dir : Directory) : Prop :=
  (dir.manifest = none ∧ dir.read firstSegment.file = none) ∨
    dir.Stranded ∨ Layout dir firstManifest [] firstSegment [] []

/-- Every state of a segmented ledger. -/
def SegmentWorld.Sound (world : SegmentWorld) : Prop :=
  match world.session with
  | none => Unopened world.directory
  | some session =>
      OnDisk P world.directory session.handle.ledger session.lines
          session.pending ∧
        (world.running = true →
          Kept P world.directory session.handle session.lines
            session.pending)

theorem Kept.onDisk {dir : Directory} {handle : SegmentedLedger}
    {lines : List Bytes} {pending : Option Entry}
    (hkept : Kept P dir handle lines pending) :
    OnDisk P dir handle.ledger lines pending := by
  obtain ⟨manifest, done, active, blocks, content, hlayout, hstores, _⟩ :=
    hkept.layout
  exact ⟨manifest, done, active, blocks, content, hlayout, hstores⟩

theorem OnDisk.not_stranded {dir : Directory} {ledger : Ledger}
    {lines : List Bytes} {pending : Option Entry}
    (hdisk : OnDisk P dir ledger lines pending) :
    ¬ dir.Stranded := by
  obtain ⟨_, _, _, _, _, hlayout, _⟩ := hdisk
  rintro ⟨hnone, _⟩
  rw [hlayout.saved] at hnone
  cases hnone

/-- The layout first-time initialization leaves. -/
theorem layout_initialized (dir : Directory) :
    Layout { dir.write firstSegment.file [] with
        manifest := some firstManifest }
      firstManifest [] firstSegment [] [] where
  saved := rfl
  segments := rfl
  shape :=
    { named := by
        intro segment hsegment
        rw [List.nil_append, List.mem_singleton] at hsegment
        rw [hsegment]
        exact validateSegmentFilename_segmentFilename (by omega)
      distinct := by simp
      starts := rfl
      ended := by simp
      unsealed := rfl
      handsOver := rfl }
  holds :=
    { paths := rfl
      stored := by simp
      complete := fun block hblock => by cases hblock
      current := by
        have hread := Directory.read_write dir firstSegment.file
          firstSegment.file []
        rw [if_pos rfl] at hread
        exact hread }

/-- A handle just opened on a layout is kept. -/
theorem kept_opened {after : Directory} {manifest : Manifest}
    {done : List SegmentMeta} {active : SegmentMeta}
    {blocks : List SealedFile} {content : Bytes} {handle : SegmentedLedger}
    (hlayout : Layout after manifest done active blocks
      (terminatedPrefix newline content))
    (hmanifest : handle.manifest = manifest)
    (hfile : handle.activeFile = active.file)
    (hcounts : handle.ledger.Counts P ""
      (sealedLines blocks ++ (cut newline content).1)) :
    Kept P after handle after.lines none := by
  have hlines : after.lines =
      sealedLines blocks ++ (cut newline content).1 := by
    rw [hlayout.lines, LineText.cut_terminatedPrefix]
  have hbytes : joined newline (sealedLines blocks) ++
      terminatedPrefix newline content = joined newline after.lines := by
    rw [hlines, LineText.joined_append]
    rfl
  refine ⟨_, _, _, _, _, hlayout, ?_, fun _ => ⟨hfile, active.openedMs, ?_⟩⟩
  · rw [hbytes]
    constructor
    · rw [hlines]
      exact hcounts
    · rw [hlines]
      intro line hline
      rcases List.mem_append.mp hline with hbefore | hafter
      · exact hlayout.holds.complete.sealedLines line hbefore
      · exact LineText.sep_notMem_of_mem_cut newline hafter
    · exact fun _ => rfl
    · exact ⟨[], by rw [List.append_nil], Or.inl rfl⟩
  · rw [hmanifest]
    exact hlayout.segments

theorem loadManifest_eq_none {dir : Directory} (hnone : dir.manifest = none) :
    loadManifest none dir = .ok none := by
  simp [loadManifest, hnone]

/-- Opening a directory without a manifest starts it, once. -/
theorem openSegmentedInner_unopened {dir : Directory}
    (hnone : dir.manifest = none) (fault : Option SegmentFault)
    (openFault : Option OpenFault) (key : SigningKey)
    (retired : List VerifyingKey) (policy : RolloverPolicy) :
    (∃ error, openSegmentedInner P fault openFault dir key retired policy
        none = (dir, .error error)) ∨
    (dir.read firstSegment.file = none ∧
      ((∃ error, openSegmentedInner P fault openFault dir key retired policy
          none = (dir.write firstSegment.file [], .error error)) ∨
        (∃ error, openSegmentedInner P fault openFault dir key retired
          policy none =
            ({ dir.write firstSegment.file [] with
                manifest := some firstManifest }, .error error)) ∨
        openSegmentedInner P fault openFault dir key retired policy none =
          openManifest P openFault
            { dir.write firstSegment.file [] with
                manifest := some firstManifest }
            firstManifest key (keyring P key retired) policy none)) := by
  unfold openSegmentedInner manifestToOpen initializeSegments
  cases SegmentFault.at fault .createDir with
  | some err => exact Or.inl ⟨_, rfl⟩
  | none =>
      rcases loadManifest_fault fault dir with ⟨error, herror⟩ | hsame
      · rw [herror]
        exact Or.inl ⟨_, rfl⟩
      · rw [hsame, loadManifest_eq_none hnone]
        simp only
        rcases createSegment_cases fault dir firstSegment.file with
          ⟨error, herror⟩ | ⟨hfree, hcreated⟩
        · rw [herror]
          exact Or.inl ⟨_, rfl⟩
        · rw [hcreated]
          refine Or.inr ⟨hfree, ?_⟩
          simp only
          rcases saveManifest_cases fault (dir.write firstSegment.file [])
              firstManifest with
            ⟨error, hsave⟩ | ⟨error, hsave⟩ | hsave
          · rw [hsave]
            exact Or.inl ⟨_, rfl⟩
          · rw [hsave]
            exact Or.inr (Or.inl ⟨_, rfl⟩)
          · rw [hsave]
            exact Or.inr (Or.inr rfl)

/-- An open that fails leaves what was stored, and one that succeeds keeps
the directory's lines. -/
theorem openManifest_sound {dir after : Directory} {manifest : Manifest}
    {done : List SegmentMeta} {active : SegmentMeta}
    {blocks : List SealedFile} {content : Bytes}
    (hlayout : Layout dir manifest done active blocks content)
    {openFault : Option OpenFault} {key : SigningKey}
    {retired : List VerifyingKey} {policy : RolloverPolicy}
    {result : Except LedgerError SegmentedLedger}
    (hopen : openManifest P openFault dir manifest key
      (keyring P key retired) policy none = (after, result)) :
    (∀ ledger lines pending,
      ledger.Stores P lines pending
        (joined newline (sealedLines blocks) ++ content) →
      OnDisk P after ledger lines pending) ∧
    ∀ handle, result = .ok handle → Kept P after handle after.lines none := by
  obtain ⟨left, hleft, hafter, hok⟩ := openManifest_layout P hlayout hopen
  constructor
  · intro ledger lines pending hstores
    rcases hleft with rfl | rfl
    · exact ⟨_, _, _, _, _, hafter, hstores⟩
    · refine ⟨_, _, _, _, _, hafter, ?_⟩
      rw [← terminatedPrefix_sealed hlayout.holds.complete]
      exact hstores.healed P
  · intro handle hhandle
    obtain ⟨rfl, hmanifest, hfile, _, hcounts⟩ := hok handle hhandle
    exact kept_opened P hafter hmanifest hfile hcounts

theorem layout_first {dir : Directory}
    (hlayout : Layout dir firstManifest [] firstSegment [] [])
    {after : Directory} {openFault : Option OpenFault} {key : SigningKey}
    {retired : List VerifyingKey} {policy : RolloverPolicy}
    {result : Except LedgerError SegmentedLedger}
    (hopen : openManifest P openFault dir firstManifest key
      (keyring P key retired) policy none = (after, result)) :
    Layout after firstManifest [] firstSegment [] [] := by
  obtain ⟨left, hleft, hafter, _⟩ := openManifest_layout P hlayout hopen
  have hempty : left = [] := by
    rcases hleft with rfl | rfl
    · rfl
    · rfl
  rw [hempty] at hafter
  exact hafter

/-- An open of a directory none has succeeded on. -/
theorem openSegmentedInner_first {dir after : Directory}
    (hdir : Unopened dir) {fault : Option SegmentFault}
    {openFault : Option OpenFault} {key : SigningKey}
    {retired : List VerifyingKey} {policy : RolloverPolicy}
    {result : Except LedgerError SegmentedLedger}
    (hopen : openSegmentedInner P fault openFault dir key retired policy
      none = (after, result)) :
    (∀ error, result = .error error → Unopened after) ∧
      ∀ handle, result = .ok handle → Kept P after handle after.lines none := by
  have hstarted : ∀ {started : Directory},
      Layout started firstManifest [] firstSegment [] [] →
      openManifest P openFault started firstManifest key
        (keyring P key retired) policy none = (after, result) →
      (∀ error, result = .error error → Unopened after) ∧
        ∀ handle, result = .ok handle →
          Kept P after handle after.lines none := by
    intro started hlayout hmanifest
    exact ⟨fun _ _ => Or.inr (Or.inr (layout_first P hlayout hmanifest)),
      (openManifest_sound P hlayout hmanifest).2⟩
  by_cases hnone : dir.manifest = none
  · rcases openSegmentedInner_unopened P hnone fault openFault key retired
        policy with
      ⟨error, herror⟩ | ⟨_, ⟨error, herror⟩ | ⟨error, herror⟩ | hsame⟩
    · rw [herror] at hopen
      cases hopen
      exact ⟨fun _ _ => hdir, fun handle hok => by cases hok⟩
    · rw [herror] at hopen
      cases hopen
      refine ⟨fun _ _ => Or.inr (Or.inl ⟨hnone, ?_⟩),
        fun handle hok => by cases hok⟩
      rw [Directory.read_write, if_pos rfl]
      rfl
    · rw [herror] at hopen
      cases hopen
      exact ⟨fun _ _ => Or.inr (Or.inr (layout_initialized dir)),
        fun handle hok => by cases hok⟩
    · rw [hsame] at hopen
      exact hstarted (layout_initialized dir) hopen
  · rcases hdir with ⟨hmanifest, _⟩ | ⟨hmanifest, _⟩ | hlayout
    · exact absurd hmanifest hnone
    · exact absurd hmanifest hnone
    · rcases openSegmentedInner_layout P hlayout fault openFault key retired
          policy with ⟨error, herror⟩ | hsame
      · rw [herror] at hopen
        cases hopen
        exact ⟨fun _ _ => Or.inr (Or.inr hlayout),
          fun handle hok => by cases hok⟩
      · rw [hsame] at hopen
        exact hstarted hlayout hopen

theorem openSegmentedInner_again {dir after : Directory} {ledger : Ledger}
    {lines : List Bytes} {pending : Option Entry}
    (hdisk : OnDisk P dir ledger lines pending)
    {fault : Option SegmentFault} {openFault : Option OpenFault}
    {key : SigningKey} {retired : List VerifyingKey}
    {policy : RolloverPolicy} {result : Except LedgerError SegmentedLedger}
    (hopen : openSegmentedInner P fault openFault dir key retired policy
      none = (after, result)) :
    OnDisk P after ledger lines pending ∧
      ∀ handle, result = .ok handle → Kept P after handle after.lines none := by
  obtain ⟨manifest, done, active, blocks, content, hlayout, hstores⟩ := hdisk
  rcases openSegmentedInner_layout P hlayout fault openFault key retired
      policy with ⟨error, herror⟩ | hsame
  · rw [herror] at hopen
    cases hopen
    exact ⟨⟨_, _, _, _, _, hlayout, hstores⟩, fun handle hok => by cases hok⟩
  · rw [hsame] at hopen
    obtain ⟨hstill, hkept⟩ := openManifest_sound P hlayout hopen
    exact ⟨hstill ledger lines pending hstores, hkept⟩

theorem segment_step_sound (world : SegmentWorld)
    (operation : SegmentOperation) (hworld : world.Sound P)
    (hoperation : operation.WithinLimit) :
    (world.step P operation).Sound P := by
  obtain ⟨directory, session, running⟩ := world
  cases operation with
  | «open» key retired policy fault openFault =>
      unfold SegmentWorld.step
      simp only
      generalize hopen : openSegmentedInner P fault openFault directory key
        retired policy none = result
      obtain ⟨after, outcome⟩ := result
      cases session with
      | none =>
          obtain ⟨herror, hok⟩ := openSegmentedInner_first P hworld hopen
          cases outcome with
          | error error => exact herror error rfl
          | ok handle =>
              have hkept := hok handle rfl
              exact ⟨hkept.onDisk, fun _ => hkept⟩
      | some session =>
          obtain ⟨hdisk, hok⟩ := openSegmentedInner_again P hworld.1 hopen
          cases outcome with
          | error error => exact ⟨hdisk, fun hfalse => by cases hfalse⟩
          | ok handle =>
              have hkept := hok handle rfl
              exact ⟨hkept.onDisk, fun _ => hkept⟩
  | append entry fault writeFault =>
      unfold SegmentWorld.step
      cases running with
      | false => exact hworld
      | true =>
          cases session with
          | none => exact hworld
          | some session =>
              have happend := (hworld.2 rfl).append P fault writeFault
                hoperation
              simp only
              generalize session.handle.append P fault writeFault directory
                entry = result at happend ⊢
              obtain ⟨after, handle, outcome⟩ := result
              cases outcome with
              | error error => exact ⟨happend.onDisk P, fun _ => happend⟩
              | ok record => exact ⟨happend.onDisk P, fun _ => happend⟩
  | stop =>
      cases session with
      | none => exact hworld
      | some session => exact ⟨hworld.1, fun hfalse => by cases hfalse⟩

theorem segment_after_sound {operations : List SegmentOperation}
    (hoperations : ∀ operation ∈ operations, operation.WithinLimit) :
    (SegmentWorld.after P operations).Sound P := by
  apply StateRun.run_preserves (SegmentWorld.step P) (segment_step_sound P)
  · exact Or.inl ⟨rfl, rfl⟩
  · exact hoperations

/-! ## Recovery -/

/-- Reopening succeeds and finds the acknowledged lines and what is complete
of the line in flight, with the head the verifier reports. -/
def Recovers (dir : Directory) (key : SigningKey)
    (retired : List VerifyingKey) (policy : RolloverPolicy)
    (lines inFlight : List Bytes) : Prop :=
  ∃ after handle files report more,
    openSegmentedInner P none none dir key retired policy none =
      (after, .ok handle) ∧
    segmentPaths after = .ok files ∧ more <+: inFlight ∧
    files.flatMap LedgerFile.content = joined newline (lines ++ more) ∧
    verifyWithKeys P handle.ledger.verifiers files = .ok report ∧
    handle.ledger.HeadIs P report

/-- Sealed files and the lines of a last one verify, to the head over
them. -/
theorem verifyWithKeys_sealed {blocks : List SealedFile}
    (hblocks : Complete blocks) (path : String) {content : Bytes}
    {ledger : Ledger} (hcounts : ledger.Counts P ""
      (sealedLines blocks ++ (cut newline content).1)) :
    ∃ report,
      verifyWithKeys P ledger.verifiers (blocks.map SealedFile.file ++
        [⟨path, terminatedPrefix newline content⟩]) = .ok report ∧
      ledger.HeadIs P report := by
  obtain ⟨state, hstate, hhead⟩ := hcounts.head P
  have hread := readAs_prefixLines hblocks
    ⟨path, terminatedPrefix newline content⟩
  simp only [LineText.cut_terminatedPrefix] at hread
  have hverified : verifyState P ledger.verifiers none
      (prefixLines (blocks.map SealedFile.file ++
        [⟨path, terminatedPrefix newline content⟩])).1 = .ok state :=
    (verifyState_readAs P hread "").mpr hstate
  have htorn : (prefixLines (blocks.map SealedFile.file ++
      [⟨path, terminatedPrefix newline content⟩])).2 = none := by
    rw [prefixLines_append_snd]
    simp
  refine ⟨_, ?_, hhead⟩
  unfold verifyWithKeys verifyInner
  have hstarts := (verifyPrefix_eq_ok_iff P).mpr
    ⟨state, hverified, rfl, rfl, htorn.symm⟩
  rw [hstarts]
  rfl

/-- Stored lines are recovered under the handle's key and ring. -/
theorem recovers_of_layout {dir : Directory} {manifest : Manifest}
    {done : List SegmentMeta} {active : SegmentMeta}
    {blocks : List SealedFile} {content : Bytes}
    (hlayout : Layout dir manifest done active blocks content)
    {ledger : Ledger} {lines : List Bytes} {pending : Option Entry}
    (hstores : ledger.Stores P lines pending
      (joined newline (sealedLines blocks) ++ content))
    {retired : List VerifyingKey}
    (hring : keyring P ledger.key retired = ledger.verifiers)
    (policy : RolloverPolicy) :
    ∃ after handle files report more,
      openManifest P none dir manifest ledger.key
          (keyring P ledger.key retired) policy none =
        (after, .ok handle) ∧
      segmentPaths after = .ok files ∧
      more <+: ledger.inFlight P pending.toList ∧
      files.flatMap LedgerFile.content = joined newline (lines ++ more) ∧
      verifyWithKeys P handle.ledger.verifiers files = .ok report ∧
      handle.ledger.HeadIs P report := by
  obtain ⟨entries, hpending, hentries, hlines, htail⟩ :=
    hstores.survivors P
  rw [LineText.cut_joined_append newline
    hlayout.holds.complete.sealedLines] at hlines htail
  have hcounts := hstores.counts.advanceAll P hentries
  obtain ⟨hkey, hverifiers⟩ := advanceAll_fixed P ledger entries
  rw [← hlines] at hcounts
  have hread := readAs_prefixLines hlayout.holds.complete
    ⟨active.file, content⟩
  obtain ⟨report, hresolve, hopened⟩ := resolveOpenHead_counted P hcounts
    hread (by rw [hkey, hverifiers, hring]) htail
  rw [hkey] at hresolve hopened
  rw [hverifiers] at hopened
  have hafter := hlayout.write (terminatedPrefix newline content)
  obtain ⟨files, hfiles, hbytes⟩ := hafter.bytes
  have hpaths := hafter.paths
  rw [hfiles] at hpaths
  cases hpaths
  have hreopened : (ledger.advanceAll P entries).reopened.Counts P ""
      (sealedLines blocks ++ (cut newline content).1) :=
    ⟨hcounts.state, hcounts.own, hcounts.free⟩
  obtain ⟨found, hfound, hhead⟩ := verifyWithKeys_sealed P
    hafter.holds.complete active.file hreopened
  refine ⟨_, { ledger := (ledger.advanceAll P entries).reopened
               policy := policy
               manifest := manifest
               activeFile := active.file }, _, found,
    ledger.inFlight P entries, ?_, hfiles, ?_, ?_, hfound, hhead⟩
  · rw [openManifest_eq P hlayout, hresolve, ← hopened, hring]
    rfl
  · rw [List.prefix_iff_eq_take.mp hpending, inFlight_take]
    exact List.take_prefix _ _
  · rw [hbytes, ← hlines, LineText.joined_append]
    rfl

theorem OnDisk.recovers {dir : Directory} {ledger : Ledger}
    {lines : List Bytes} {pending : Option Entry}
    (hdisk : OnDisk P dir ledger lines pending)
    {retired : List VerifyingKey}
    (hring : keyring P ledger.key retired = ledger.verifiers)
    (policy : RolloverPolicy) :
    Recovers P dir ledger.key retired policy lines
      (ledger.inFlight P pending.toList) := by
  obtain ⟨manifest, done, active, blocks, content, hlayout, hstores⟩ := hdisk
  obtain ⟨after, handle, files, report, more, hopen, hrest⟩ :=
    recovers_of_layout P hlayout hstores hring policy
  refine ⟨after, handle, files, report, more, ?_, hrest⟩
  have hload := hlayout.shape.load hlayout.saved hlayout.segments
  unfold openSegmentedInner manifestToOpen
  rw [SegmentFault.at_none, hload]
  exact hopen

/-- A new handle stores nothing. -/
theorem stores_empty (key : SigningKey) (retired : List VerifyingKey) :
    (Ledger.opened key (keyring P key retired) none 0 []).Stores P [] none
      [] where
  counts := ⟨⟨{}, rfl, rfl, rfl, rfl⟩, keyring_mem P key retired, rfl⟩
  complete := by simp
  live := fun _ => rfl
  left := ⟨[], rfl, Or.inl rfl⟩

/-- A directory no open has succeeded on opens, unless it is stranded. -/
theorem Unopened.recovers_iff {dir : Directory} (hdir : Unopened dir)
    (key : SigningKey) (retired : List VerifyingKey)
    (policy : RolloverPolicy) :
    Recovers P dir key retired policy [] [] ↔ ¬ dir.Stranded := by
  constructor
  · rintro ⟨after, handle, _, _, _, hopen, _⟩ ⟨hnone, hfile⟩
    obtain ⟨content, hcontent⟩ := Option.isSome_iff_exists.mp hfile
    unfold openSegmentedInner manifestToOpen at hopen
    rw [SegmentFault.at_none, loadManifest_eq_none hnone] at hopen
    simp only [initializeSegments, createSegment, SegmentFault.at_none,
      hcontent] at hopen
    cases hopen
  · intro hstranded
    have hstart := stores_empty P key retired
    rcases hdir with ⟨hnone, hfree⟩ | hbad | hlayout
    · obtain ⟨after, handle, files, report, more, hopen, hrest⟩ :=
        recovers_of_layout P (layout_initialized dir) hstart rfl policy
      refine ⟨after, handle, files, report, more, ?_, hrest⟩
      unfold openSegmentedInner manifestToOpen
      rw [SegmentFault.at_none, loadManifest_eq_none hnone]
      simp only [initializeSegments, createSegment, SegmentFault.at_none,
        hfree, saveManifest]
      exact hopen
    · exact absurd hbad hstranded
    · exact OnDisk.recovers P
        ⟨firstManifest, [], firstSegment, [], [], hlayout, hstart⟩ rfl policy

/-- Reopening recovers the last handle's lines under its key and ring, and
nothing under any key where no open has succeeded. -/
def SegmentWorld.Recoverable (world : SegmentWorld) : Prop :=
  match world.session with
  | none => ∀ key retired policy,
      Recovers P world.directory key retired policy [] []
  | some session => ∀ retired policy,
      keyring P session.handle.ledger.key retired =
        session.handle.ledger.verifiers →
      Recovers P world.directory session.handle.ledger.key retired policy
        session.lines
        (session.handle.ledger.inFlight P session.pending.toList)

/-- Wherever a process stops or a file operation fails, reopening recovers
what was acknowledged and at most the record in flight, unless the stop left
the first segment without a manifest. -/
theorem segmented_crash_safety {operations : List SegmentOperation}
    (hoperations : ∀ operation ∈ operations, operation.WithinLimit) :
    (SegmentWorld.after P operations).Recoverable P ↔
      ¬ (SegmentWorld.after P operations).directory.Stranded := by
  have hsound := segment_after_sound P hoperations
  generalize SegmentWorld.after P operations = world at hsound ⊢
  obtain ⟨directory, session, running⟩ := world
  cases session with
  | none =>
      have hdir : Unopened directory := hsound
      constructor
      · intro hrecoverable
        exact (hdir.recovers_iff P (Vector.replicate 32 0) [] ⟨none, none⟩).mp
          (hrecoverable _ _ _)
      · intro hstranded key retired policy
        exact (hdir.recovers_iff P key retired policy).mpr hstranded
  | some session =>
      have hdisk := hsound.1
      refine iff_of_true ?_ (hdisk.not_stranded P)
      intro retired policy hring
      exact hdisk.recovers P hring policy

/-- An open, an append, one that rolls over and one torn by the stop. -/
def crashedAppends : List SegmentOperation :=
  [.open (sampleKey 1) [] ⟨none, some 10⟩ none none,
    .append { sampleEntry .null with tsMs := 5 } none none,
    .append { sampleEntry .null with tsMs := 25 } none none,
    .append { sampleEntry .null with tsMs := 26 } none
      (some (.torn 40 "stopped")),
    .stop]

theorem segmented_crash_safety_sample :
    ((SegmentWorld.after samplePlatform crashedAppends).session.map
        fun session => (session.lines.length, session.pending.isSome,
          session.handle.ledger.failed,
          session.handle.manifest.segments.length)) =
          some (2, true, true, 2) ∧
      (SegmentWorld.after samplePlatform crashedAppends).Recoverable
        samplePlatform := by
  refine ⟨rfl, (segmented_crash_safety samplePlatform ?_).mpr ?_⟩
  · simp [crashedAppends, SegmentOperation.WithinLimit, Entry.WithinLimit,
      sampleEntry, Serde.Value.nesting, Serde.recursionLimit]
  · rintro ⟨hnone, _⟩
    cases hnone

/-- A stop between creating the first segment and writing the manifest leaves
a directory that never opens again. -/
theorem stranded_segment_breaks_reopen :
    ¬ ∀ operations : List SegmentOperation,
      (SegmentWorld.after samplePlatform operations).Recoverable
        samplePlatform := by
  intro hall
  have hrecoverable := hall
    [.open (sampleKey 1) [] ⟨none, none⟩ (some ⟨.manifestWrite, "stopped"⟩)
      none]
  obtain ⟨after, handle, _, _, _, hopen, _⟩ :=
    hrecoverable (sampleKey 1) [] ⟨none, none⟩
  cases hopen

end Decern
