import Decern.WriteMoments
import Mathlib.Tactic

/-!
# A segmented ledger while it writes

Every call takes the directory through moments that only add to what it holds,
and leaves a live handle whose number counts the records in it, whatever the
records say and wherever the call fails.
-/

namespace Decern

open ByteText (Bytes newline)
open LineText (cut joined)

variable (P : Platform)

/-! ## The head over some lines -/

/-- Lines no ring verifies. -/
def Unverifiable (path : String) (lines : List Bytes) : Prop :=
  ∀ keys, ∃ error,
    verifyState P keys none (lines.map (decodeLine path)) = .error error

/-- The handle's head is the verifier's after these lines, unless they do not
verify. -/
def Ledger.Heads (path : String) (ledger : Ledger) (lines : List Bytes) :
    Prop :=
  ledger.Counts P path lines ∨ Unverifiable P path lines

section Heads

variable {P} {path : String} {ledger : Ledger} {lines : List Bytes}

theorem Unverifiable.append (hlines : Unverifiable P path lines)
    (more : List Bytes) : Unverifiable P path (lines ++ more) := by
  intro keys
  obtain ⟨error, herror⟩ := hlines keys
  refine ⟨error, ?_⟩
  rw [List.map_append, verifyState_append, herror]
  rfl

/-- An entry that nests too deep leaves a log no ring verifies. -/
theorem unverifiable_sealNext {entry : Entry}
    (hentry : ¬entry.WithinLimit) :
    Unverifiable P path
      (lines ++ [recordLine P (ledger.sealNext P entry)]) := by
  intro keys
  have hwithin : ¬(entry.withSeq ledger.nextSeq).WithinLimit := hentry
  rw [List.map_append, verifyState_append, List.map_singleton,
    decodeLine_recordLine]
  cases verifyState P keys none (lines.map (decodeLine path)) with
  | error error => exact ⟨error, rfl⟩
  | ok state =>
      refine ⟨.tamper state.count
        ("unparseable entry: " ++ P.serdeMessage .unreadable), ?_⟩
      simp only [bind, Except.bind, verifyFrom_singleton]
      exact verifyLine_sealRecord_of_not_withinLimit P hwithin

namespace Ledger.Heads

theorem setSync (hheads : ledger.Heads P path lines) (sync : Bool) :
    ({ ledger with sync } : Ledger).Heads P path lines :=
  hheads.imp_left fun hcounts => ⟨hcounts.state, hcounts.own, hcounts.free⟩

theorem fail (hheads : ledger.Heads P path lines) :
    ({ ledger with failed := true } : Ledger).Heads P path lines :=
  hheads.imp_left fun hcounts => ⟨hcounts.state, hcounts.own, hcounts.free⟩

theorem rotate (hheads : ledger.Heads P path lines) (newKey : SigningKey) :
    (ledger.rotate P newKey).1.Heads P path lines :=
  hheads.imp_left fun hcounts => hcounts.rotate P newKey

theorem advance (hheads : ledger.Heads P path lines) (entry : Entry) :
    (ledger.advance P entry).Heads P path
      (lines ++ [recordLine P (ledger.sealNext P entry)]) := by
  rcases hheads with hcounts | hlines
  · by_cases hentry : entry.WithinLimit
    · exact Or.inl (hcounts.advance P hentry)
    · exact Or.inr (unverifiable_sealNext hentry)
  · exact Or.inr (hlines.append _)

/-- Where the lines verify, the handle has the verifier's signers. -/
theorem signers (hheads : ledger.Heads P path lines) {state : VerifyState}
    (hstate : verifyState P ledger.verifiers none
      (lines.map (decodeLine path)) = .ok state) :
    state.signers = ledger.signers := by
  rcases hheads with hcounts | hlines
  · obtain ⟨counted, hcounted, _, _, hsigners⟩ := hcounts.state
    rw [hcounted] at hstate
    cases hstate
    exact hsigners
  · obtain ⟨error, herror⟩ := hlines ledger.verifiers
    rw [herror] at hstate
    cases hstate

end Ledger.Heads

end Heads

/-! ## A live handle -/

/-- The region's lines are texts, this many of them records. -/
def CountsRecords (region : Region) (count : ℕ) : Prop :=
  ∃ texts : List String, regionLines region = texts.map Except.ok ∧
    (texts.filter notBlank).length = count

theorem CountsRecords.record {region later : Region} {count : ℕ}
    (hnumbered : CountsRecords region count) (record : RecordOut)
    (hlater : regionLines later =
      regionLines region ++ [.ok (record.line P)]) :
    CountsRecords later (count + 1) := by
  rcases hnumbered with ⟨texts, htexts, hcount⟩
  refine ⟨texts ++ [record.line P], by rw [hlater, htexts]; simp, ?_⟩
  have hrecord : notBlank (record.line P) = true := by
    simp [notBlank, line_not_blank P record]
  rw [List.filter_append, List.filter_singleton, hrecord]
  simp [hcount]

/-- A handle that may write: its segment is the active one, ends with a line,
its number is how many records there are and its head is over their lines. -/
structure SegmentedLedger.Live (handle : SegmentedLedger)
    (done : List SegmentMeta) (active : SegmentMeta)
    (blocks : List SealedFile) (content : Bytes) : Prop where
  agrees : handle.Agrees done active
  complete : content = joined newline (cut newline content).1
  numbered : CountsRecords (layoutRegion blocks active content)
    handle.ledger.nextSeq
  heads : handle.ledger.Heads P ""
    (sealedLines blocks ++ (cut newline content).1)

/-- A directory, and a handle that stopped or may write to it. -/
def Attached (dir : Directory) (handle : SegmentedLedger) : Prop :=
  ∃ manifest done active blocks content,
    Layout dir manifest done active blocks content ∧
      (handle.ledger.failed = false →
        handle.Live P done active blocks content)

/-- A file that ends with a line, and one record more. -/
theorem cut_record {content : Bytes}
    (hcomplete : content = joined newline (cut newline content).1)
    (record : RecordOut) :
    content ++ (recordLine P record ++ [newline]) = joined newline
        (cut newline (content ++ (recordLine P record ++ [newline]))).1 ∧
      (cut newline (content ++ (recordLine P record ++ [newline]))).1 =
        (cut newline content).1 ++ [recordLine P record] := by
  have hlines : ∀ line ∈ (cut newline content).1 ++ [recordLine P record],
      newline ∉ line := by
    intro line hline
    rcases List.mem_append.mp hline with hbefore | hlast
    · exact LineText.sep_notMem_of_mem_cut newline hbefore
    · rw [List.mem_singleton.mp hlast]
      exact newline_notMem_recordLine P record
  have hwhole : content ++ (recordLine P record ++ [newline]) =
      joined newline ((cut newline content).1 ++ [recordLine P record]) := by
    rw [LineText.joined_append, ← hcomplete]
    simp
  have hcut := LineText.cut_joined newline hlines
  rw [hwhole, hcut]
  exact ⟨rfl, rfl⟩

section Calls

variable {dir after : Directory} {handle next : SegmentedLedger}
  {fault : Option SegmentFault} {tsMs : UInt64}
  {outcome : Except LedgerError Unit}

theorem Attached.fail (hattached : Attached P dir handle) :
    Attached P dir handle.fail := by
  rcases hattached with ⟨manifest, done, active, blocks, content, hlayout, _⟩
  exact ⟨manifest, done, active, blocks, content, hlayout,
    fun hlive => by cases hlive⟩

theorem Attached.rollOver (hattached : Attached P dir handle)
    (hlive : handle.ledger.failed = false)
    (hroll : handle.rollOver fault dir tsMs = (after, next, outcome)) :
    DirectoryGrows dir (handle.rollMoments fault dir tsMs) after ∧
      Attached P after next ∧
      (outcome = .ok () → next.ledger = handle.ledger) := by
  rcases hattached with ⟨manifest, done, active, blocks, content, hlayout,
    hhandle⟩
  rcases hhandle hlive with
    ⟨⟨hfile, opened, hsegments⟩, hcomplete, hnumbered, hheads⟩
  unfold SegmentedLedger.rollOver rollOverSegments at hroll
  unfold SegmentedLedger.rollMoments
  rcases rollOverPrepared_cases fault dir handle.manifest
      handle.ledger.nextSeq tsMs with
    ⟨error, herror⟩ |
      ⟨file, index, hindex, hnone, ⟨error, herror⟩ | hprepared⟩
  · rw [herror] at hroll ⊢
    cases hroll
    refine ⟨.single (refl_of Directory.Onward dir), ?_, fun hok => by cases hok⟩
    exact ⟨manifest, done, active, blocks, content, hlayout, hhandle⟩
  · rw [herror] at hroll ⊢
    cases hroll
    refine ⟨.single (hlayout.onward_create hnone []), ?_,
      fun hok => by cases hok⟩
    exact ⟨manifest, done, active, blocks, content, hlayout.create hnone [],
      hhandle⟩
  · have hcreated := hlayout.create hnone []
    have hempty : (dir.write file []).read file = some [] := by
      rw [Directory.read_write, if_pos rfl]
    have hlines : ∀ line ∈ (cut newline content).1, newline ∉ line :=
      fun line hline => LineText.sep_notMem_of_mem_cut newline hline
    have hrolled : (handle.manifest.rolled file handle.ledger.nextSeq
        tsMs).segments =
          done ++ [{ active with
            openedMs := opened
            endSeq := some handle.ledger.nextSeq }] ++
          [{ file := file
             startSeq := handle.ledger.nextSeq
             endSeq := none
             openedMs := tsMs }] := by
      unfold Manifest.rolled
      rw [hsegments, changeActive_opened hlayout.shape]
    have hcommitted := hcreated.roll hcomplete hlines hindex
      (hlayout.read_ne_none hnone) hempty hrolled
    have hfirst := hlayout.onward_create hnone []
    have hsecond := hcreated.onward_roll hcomplete hlines hindex
      (hlayout.read_ne_none hnone) hempty hrolled
    rw [hprepared] at hroll ⊢
    simp only at hroll ⊢
    rcases saveManifest_cases fault (dir.write file [])
        (handle.manifest.rolled file handle.ledger.nextSeq tsMs) with
      ⟨error, hsave⟩ | ⟨error, hsave⟩ | hsave
    · rw [hsave] at hroll ⊢
      cases hroll
      refine ⟨.next hfirst (.single (refl_of Directory.Onward _)), ?_,
        fun hok => by cases hok⟩
      exact ⟨manifest, done, active, blocks, content, hcreated, hhandle⟩
    · rw [hsave] at hroll ⊢
      cases hroll
      refine ⟨.next hfirst (.single hsecond), ?_, fun hok => by cases hok⟩
      exact ⟨_, _, _, _, _, hcommitted, fun hfailed => by cases hfailed⟩
    · rw [hsave] at hroll ⊢
      simp only at hroll ⊢
      cases hopen : SegmentFault.at fault .openNew with
      | some err =>
          rw [hopen] at hroll
          cases hroll
          refine ⟨.next hfirst (.single hsecond), ?_, fun hok => by cases hok⟩
          exact ⟨_, _, _, _, _, hcommitted, fun hfailed => by cases hfailed⟩
      | none =>
          rw [hopen] at hroll
          cases hroll
          refine ⟨.next hfirst (.single hsecond), ?_, fun _ => rfl⟩
          refine ⟨_, _, _, _, _, hcommitted, fun _ => ?_⟩
          refine ⟨⟨rfl, tsMs, hrolled⟩, rfl, ?_, ?_⟩
          · rcases hnumbered with ⟨texts, htexts, hcount⟩
            refine ⟨texts, ?_, hcount⟩
            rw [← htexts]
            simp [layoutRegion, regionLines]
          · simpa [sealedLines] using hheads

/-- A rebase changes a date, in memory only once it is on disk. -/
theorem Attached.rebase (hattached : Attached P dir handle)
    (hlive : handle.ledger.failed = false)
    (hrebase : handle.rebase fault dir tsMs = (after, next, outcome)) :
    DirectoryGrows dir [after] after ∧ Attached P after next ∧
      (outcome = .ok () → next.ledger = handle.ledger) := by
  rcases hattached with ⟨manifest, done, active, blocks, content, hlayout,
    hhandle⟩
  rcases hhandle hlive with
    ⟨⟨hfile, opened, hsegments⟩, hcomplete, hnumbered, hheads⟩
  have hrebased : (SegmentedLedger.rebased handle.manifest tsMs).segments =
      done ++ [{ active with openedMs := tsMs }] := by
    unfold SegmentedLedger.rebased
    rw [hsegments, changeActive_opened hlayout.shape]
  have hsaved := hlayout.rebase tsMs hrebased
  have honward := hlayout.onward_rebase tsMs hrebased
  unfold SegmentedLedger.rebase at hrebase
  split_ifs at hrebase
  · rcases saveManifest_cases fault dir
        (SegmentedLedger.rebased handle.manifest tsMs) with
      ⟨error, hsave⟩ | ⟨error, hsave⟩ | hsave
    · rw [hsave] at hrebase
      cases hrebase
      refine ⟨.single (refl_of Directory.Onward _), ?_, fun _ => rfl⟩
      exact ⟨manifest, done, active, blocks, content, hlayout, hhandle⟩
    · rw [hsave] at hrebase
      cases hrebase
      refine ⟨.single honward, ?_, fun _ => rfl⟩
      exact ⟨_, _, _, _, _, hsaved, fun _ =>
        ⟨⟨hfile, opened, hsegments⟩, hcomplete, hnumbered, hheads⟩⟩
    · rw [hsave] at hrebase
      cases hrebase
      refine ⟨.single honward, ?_, fun _ => rfl⟩
      exact ⟨_, _, _, _, _, hsaved, fun _ =>
        ⟨⟨hfile, tsMs, hrebased⟩, hcomplete, hnumbered, hheads⟩⟩
  · cases hrebase
    refine ⟨.single (refl_of Directory.Onward _), ?_, fun _ => rfl⟩
    exact ⟨manifest, done, active, blocks, content, hlayout, hhandle⟩

theorem Attached.prepare (hattached : Attached P dir handle)
    (hlive : handle.ledger.failed = false)
    (hprepare : handle.prepare fault dir tsMs = (after, next, outcome)) :
    DirectoryGrows dir (handle.prepareMoments fault dir tsMs) after ∧
      Attached P after next ∧
      (outcome = .ok () → next.ledger = handle.ledger) := by
  unfold SegmentedLedger.prepare at hprepare
  unfold SegmentedLedger.prepareMoments
  simp only at hprepare ⊢
  split_ifs at hprepare with hfull
  · rw [if_pos (by exact hfull)]
    rcases hroll : handle.rollOver fault dir tsMs with ⟨rolled, mid, answer⟩
    rcases hattached.rollOver P hlive hroll with ⟨hmoments, hmid, hledger⟩
    rw [hroll] at hprepare
    cases answer with
    | error error =>
        cases hprepare
        simp only [List.append_nil]
        exact ⟨hmoments, hmid, fun hok => by cases hok⟩
    | ok done =>
        simp only at hprepare ⊢
        have hsame := hledger rfl
        rcases hmid.rebase P (by rw [hsame]; exact hlive) hprepare with
          ⟨hmore, hafter, hkept⟩
        rw [hprepare]
        refine ⟨hmoments.append hmore, hafter, fun hok => ?_⟩
        rw [hkept hok, hsame]
  · rw [if_neg (by exact hfull)]
    rcases hattached.rebase P hlive hprepare with ⟨hmoments, hafter, hkept⟩
    rw [hprepare]
    exact ⟨hmoments, hafter, hkept⟩

/-- An append adds to the directory, and its record to a live handle's
number. -/
theorem Attached.append {writeFault : Option WriteFault} {entry : Entry}
    {answer : Except LedgerError RecordOut} (hattached : Attached P dir handle)
    (happend : handle.append P fault writeFault dir entry =
      (after, next, answer)) :
    DirectoryGrows dir (handle.moments P fault writeFault dir entry) after ∧
      Attached P after next := by
  unfold SegmentedLedger.append at happend
  unfold SegmentedLedger.moments
  split_ifs at happend ⊢ with hfailed
  · cases happend
    exact ⟨.done _, hattached⟩
  · have hlive : handle.ledger.failed = false := by simpa using hfailed
    rcases hprepare : handle.prepare fault dir entry.tsMs with
      ⟨ready, mid, outcome⟩
    rcases hattached.prepare P hlive hprepare with ⟨hmoments, hmid, hledger⟩
    rw [hprepare] at happend
    cases outcome with
    | error error =>
        cases happend
        simp only [List.append_nil]
        exact ⟨hmoments, hmid⟩
    | ok done =>
        simp only at happend ⊢
        rcases hmid with ⟨manifest, done, active, blocks, content, hlayout,
          hhandle⟩
        have hmidLive : mid.ledger.failed = false := by
          rw [hledger rfl]
          exact hlive
        rcases hhandle hmidLive with ⟨⟨hfile, opened, hsegments⟩, hcomplete,
          hnumbered, hheads⟩
        have hgrows := mid.ledger.moments_grow P active.file content entry
          writeFault
        have hsome := Ledger.moments_ne_nil P hmidLive content entry writeFault
        have hwritten := (hgrows.map (f := ready.write active.file)
          (S := Directory.Onward) fun _ _ => hlayout.onward_overwrite).earlier
            (hlayout.onward_write (List.prefix_refl content))
            (by simpa using hsome)
        rw [hfile, hlayout.holds.current, Option.getD_some] at happend ⊢
        rcases mid.ledger.append_cases P active.file content entry writeFault
          with ⟨hfailed, _⟩ | ⟨_, hresult⟩ | ⟨_, written, err, hresult⟩
        · rw [hmidLive] at hfailed
          cases hfailed
        · rw [hresult] at happend hwritten
          cases happend
          have hcut := cut_record P hcomplete (mid.ledger.sealNext P entry)
          refine ⟨hmoments.append hwritten, _, _, _, _, _, hlayout.write _,
            fun _ => ⟨⟨rfl, opened, hsegments⟩, hcut.1, ?_, ?_⟩⟩
          · apply hnumbered.record P (mid.ledger.sealNext P entry)
            rw [layoutRegion, layoutRegion, hcut.2, regionLines_append,
              regionLines_append, regionLines_cons, regionLines_cons,
              List.map_append, List.map_singleton, decodeLine_recordLine]
            simp [regionLines]
          · have hnext := hheads.advance entry
            rw [List.append_assoc, ← hcut.2] at hnext
            exact hnext
        · rw [hresult] at happend hwritten
          cases happend
          exact ⟨hmoments.append hwritten, _, _, _, _, _, hlayout.write _,
            fun hstopped => by cases hstopped⟩

end Calls

end Decern
