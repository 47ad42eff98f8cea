import Decern.LedgerWriter
import Decern.SamplePlatform
import Mathlib.Tactic

/-!
# Everything one writer leaves verifies

The handle's cached head is the verifier's state after the lines the handle
counts.  An append moves both by one record, a rotation changes neither, and a
write that fails leaves the counted lines and a beginning of one more.
-/

namespace Decern

open ByteText (Bytes newline)
open LineText (cut joined terminatedPrefix)

variable (P : Platform)

/-! ## The head and the lines it counts -/

/-- The verifier ends with the handle's head after `lines`, and the handle's
key may sign next. -/
structure Ledger.Counts (path : String) (ledger : Ledger)
    (lines : List Bytes) : Prop where
  state : ∃ state,
    verifyState P ledger.verifiers none (lines.map (decodeLine path)) =
      .ok state ∧
    state.count = ledger.nextSeq ∧ state.prev = ledger.lastHash ∧
    state.signers = ledger.signers
  own : P.verifyingKey ledger.key ∈ ledger.verifiers
  free : Succession.successor ledger.signers
    (keyFingerprint (P.verifyingKey ledger.key)) = none

theorem keyring_mem (key : SigningKey) (retired : List VerifyingKey) :
    P.verifyingKey key ∈ keyring P key retired := by
  unfold keyring
  split
  case isTrue hmem => exact hmem
  case isFalse => simp

/-- A ring grows at its end. -/
theorem keyring_eq_append (key : SigningKey) (retired : List VerifyingKey) :
    ∃ more, keyring P key retired = retired ++ more := by
  unfold keyring
  split
  case isTrue => exact ⟨[], by simp⟩
  case isFalse => exact ⟨_, rfl⟩

/-- The verifier accepts the handle's next record, and reaches the head the
handle moves to. -/
theorem verifyState_sealNext {path : String} {ledger : Ledger}
    {lines : List Bytes} (hcounts : ledger.Counts P path lines)
    {entry : Entry} (hentry : entry.WithinLimit) :
    ∃ state : VerifyState,
      state.WellFormed P ∧ state.count = ledger.nextSeq ∧
      state.prev = ledger.lastHash ∧ state.signers = ledger.signers ∧
      verifyState P ledger.verifiers none
          ((lines ++ [recordLine P (ledger.sealNext P entry)]).map
            (decodeLine path)) =
        .ok (state.afterSealed P ledger.key
          (entry.withSeq ledger.nextSeq)) := by
  obtain ⟨state, hstate, hcount, hprev, hsigners⟩ := hcounts.state
  have hadmits : Succession.Admits state.signers
      (keyFingerprint (P.verifyingKey ledger.key)) := by
    rw [hsigners]
    exact Or.inr hcounts.free
  have hwithin : (entry.withSeq ledger.nextSeq).WithinLimit :=
    Entry.withSeq_withinLimit.mpr hentry
  have hseq : (entry.withSeq ledger.nextSeq).seq = state.count := hcount.symm
  have hline := verifyLine_sealRecord P hcounts.own hadmits hwithin hseq
  have hsealed : ledger.sealNext P entry =
      sealRecord P ledger.key (entry.withSeq ledger.nextSeq) state.prev := by
    rw [Ledger.sealNext, hprev]
  refine ⟨state, verifyState_wellFormed P hstate, hcount, hprev, hsigners, ?_⟩
  rw [List.map_append, verifyState_append, hstate, List.map_singleton,
    decodeLine_recordLine, hsealed]
  simp only [bind, Except.bind, verifyFrom_singleton]
  exact hline

theorem Ledger.Counts.advance {path : String} {ledger : Ledger}
    {lines : List Bytes} (hcounts : ledger.Counts P path lines)
    {entry : Entry} (hentry : entry.WithinLimit) :
    (ledger.advance P entry).Counts P path
      (lines ++ [recordLine P (ledger.sealNext P entry)]) := by
  obtain ⟨state, hwell, hcount, hprev, hsigners, hnext⟩ :=
    verifyState_sealNext P hcounts hentry
  constructor
  · refine ⟨_, hnext, ?_, ?_, ?_⟩
    · simp only [VerifyState.afterSealed, VerifyState.after, hcount]
      rfl
    · simp only [VerifyState.afterSealed, VerifyState.after, hprev]
      rfl
    · simp only [VerifyState.afterSealed, VerifyState.after, hsigners,
        hcount]
      rfl
  · exact hcounts.own
  · have hnodup := hwell.nodup
    rw [hsigners] at hnodup
    exact Succession.successor_extend_self hnodup (Or.inr hcounts.free)
      ledger.nextSeq

/-- The verifier refuses the handle's next record when it nests too deep. -/
theorem verifyState_sealNext_error {path : String} {ledger : Ledger}
    {lines : List Bytes} (hcounts : ledger.Counts P path lines)
    {entry : Entry} (hentry : ¬ entry.WithinLimit) :
    ∃ error, verifyState P ledger.verifiers none
      ((lines ++ [recordLine P (ledger.sealNext P entry)]).map
        (decodeLine path)) = .error error := by
  obtain ⟨state, hstate, hhead⟩ := hcounts.state
  have hwithin : ¬ (entry.withSeq ledger.nextSeq).WithinLimit := hentry
  refine ⟨.tamper state.count
    ("unparseable entry: " ++ P.serdeMessage .unreadable), ?_⟩
  rw [List.map_append, verifyState_append, hstate, List.map_singleton,
    decodeLine_recordLine]
  simp only [bind, Except.bind, verifyFrom_singleton]
  exact verifyLine_sealRecord_of_not_withinLimit P hwithin

/-- A rotation the code allows keeps the head and lets the new key sign. -/
theorem Ledger.Counts.rotate {path : String} {ledger : Ledger}
    {lines : List Bytes} (hcounts : ledger.Counts P path lines)
    (newKey : SigningKey) :
    (ledger.rotate P newKey).1.Counts P path lines := by
  unfold Ledger.rotate
  simp only
  split
  case h_1 => exact hcounts
  case h_2 hfree =>
    obtain ⟨state, hstate, hhead⟩ := hcounts.state
    obtain ⟨more, hmore⟩ := keyring_eq_append P newKey ledger.verifiers
    constructor
    · refine ⟨state, ?_, hhead⟩
      rw [hmore]
      exact verifyState_append_keys P (List.ne_nil_of_mem hcounts.own) hstate
    · exact keyring_mem P newKey ledger.verifiers
    · exact hfree

/-! ## The file -/

/-- What a stopped handle may have left after its lines: a beginning of one
more line the verifier would accept. -/
def Ledger.Leaves (path : String) (ledger : Ledger) (lines : List Bytes)
    (left : Bytes) : Prop :=
  left = [] ∨ ∃ line written,
    newline ∉ line ∧ left = (line ++ [newline]).take written ∧
    ∃ state, verifyState P ledger.verifiers none
      ((lines ++ [line]).map (decodeLine path)) = .ok state

/-- A file as its writer left it. -/
structure Ledger.Tracks (path : String) (ledger : Ledger)
    (lines : List Bytes) (content : Bytes) : Prop where
  counts : ledger.Counts P path lines
  complete : ∀ line ∈ lines, newline ∉ line
  live : ledger.failed = false → content = joined newline lines
  stopped : ∃ left, content = joined newline lines ++ left ∧
    ledger.Leaves P path lines left

/-- Only the key, the ring and the failed flag matter to the file. -/
theorem Ledger.Tracks.congr {path : String} {ledger other : Ledger}
    {lines : List Bytes} {content : Bytes}
    (htracks : ledger.Tracks P path lines content)
    (hcounts : other.Counts P path lines)
    (hverifiers : ∃ more, other.verifiers = ledger.verifiers ++ more)
    (hfailed : other.failed = false → ledger.failed = false) :
    other.Tracks P path lines content where
  counts := hcounts
  complete := htracks.complete
  live := fun hlive => htracks.live (hfailed hlive)
  stopped := by
    obtain ⟨left, hcontent, hleaves⟩ := htracks.stopped
    refine ⟨left, hcontent, ?_⟩
    rcases hleaves with hnil | ⟨line, written, hline, hleft, state, hstate⟩
    · exact Or.inl hnil
    · obtain ⟨more, hmore⟩ := hverifiers
      refine Or.inr ⟨line, written, hline, hleft, state, ?_⟩
      rw [hmore]
      exact verifyState_append_keys P
        (List.ne_nil_of_mem htracks.counts.own) hstate

theorem Ledger.Tracks.setSync {path : String} {ledger : Ledger}
    {lines : List Bytes} {content : Bytes}
    (htracks : ledger.Tracks P path lines content) (sync : Bool) :
    ({ ledger with sync } : Ledger).Tracks P path lines content :=
  htracks.congr P ⟨htracks.counts.state, htracks.counts.own,
    htracks.counts.free⟩ ⟨[], by simp⟩ id

theorem Ledger.Tracks.fail {path : String} {ledger : Ledger}
    {lines : List Bytes} {content : Bytes}
    (htracks : ledger.Tracks P path lines content) :
    ({ ledger with failed := true } : Ledger).Tracks P path lines content :=
  htracks.congr P ⟨htracks.counts.state, htracks.counts.own,
    htracks.counts.free⟩ ⟨[], by simp⟩ (fun hlive => by cases hlive)

/-- The next record was written whole. -/
theorem Ledger.Tracks.advance {path : String} {ledger : Ledger}
    {lines : List Bytes} {content : Bytes}
    (htracks : ledger.Tracks P path lines content)
    (hlive : ledger.failed = false) {entry : Entry}
    (hentry : entry.WithinLimit) :
    (ledger.advance P entry).Tracks P path
      (lines ++ [recordLine P (ledger.sealNext P entry)])
      (content ++ (recordLine P (ledger.sealNext P entry) ++ [newline])) := by
  have hcontent : content ++
      (recordLine P (ledger.sealNext P entry) ++ [newline]) =
        joined newline
          (lines ++ [recordLine P (ledger.sealNext P entry)]) := by
    rw [htracks.live hlive]
    simp
  constructor
  · exact htracks.counts.advance P hentry
  · intro line hline
    rcases List.mem_append.mp hline with hbefore | hlast
    · exact htracks.complete line hbefore
    · rw [List.mem_singleton.mp hlast]
      exact newline_notMem_recordLine P _
  · intro _
    exact hcontent
  · exact ⟨[], by rw [hcontent, List.append_nil], Or.inl rfl⟩

/-- The next record was written in part. -/
theorem Ledger.Tracks.torn {path : String} {ledger : Ledger}
    {lines : List Bytes} {content : Bytes}
    (htracks : ledger.Tracks P path lines content)
    (hlive : ledger.failed = false) {entry : Entry}
    (hentry : entry.WithinLimit) (written : ℕ) :
    ({ ledger with failed := true } : Ledger).Tracks P path lines
      (content ++ (recordLine P (ledger.sealNext P entry) ++
        [newline]).take written) := by
  obtain ⟨_, _, _, _, _, hnext⟩ :=
    verifyState_sealNext P htracks.counts hentry
  constructor
  · exact ⟨htracks.counts.state, htracks.counts.own, htracks.counts.free⟩
  · exact htracks.complete
  · intro hfailed
    cases hfailed
  · refine ⟨_, by rw [htracks.live hlive], Or.inr ⟨_, written, ?_, rfl,
      _, hnext⟩⟩
    exact newline_notMem_recordLine P _

/-! ## Appends -/

/-- What an append can do: refuse, write its record whole, or stop. -/
theorem Ledger.append_cases (ledger : Ledger) (path : String) (file : Bytes)
    (entry : Entry) (fault : Option WriteFault) :
    (ledger.failed = true ∧ ledger.append P path file entry fault =
      (ledger, file, .error (Ledger.failedErr path))) ∨
    (ledger.failed = false ∧ ledger.append P path file entry fault =
      (ledger.advance P entry,
        file ++ (recordLine P (ledger.sealNext P entry) ++ [newline]),
        .ok (ledger.sealNext P entry))) ∨
    (ledger.failed = false ∧ ∃ written err,
      ledger.append P path file entry fault =
        ({ ledger with failed := true },
          file ++ (recordLine P (ledger.sealNext P entry) ++
            [newline]).take written,
          .error (.io path err))) := by
  unfold Ledger.append
  cases hfailed : ledger.failed with
  | true => simp
  | false =>
      simp only [Bool.false_eq_true, if_false]
      cases fault with
      | none => simp [Ledger.writeLine]
      | some fault =>
          cases fault with
          | torn written err =>
              exact Or.inr (Or.inr ⟨trivial, written, err, rfl⟩)
          | unsynced err =>
              cases hsync : ledger.sync with
              | false => simp [Ledger.writeLine, hsync]
              | true =>
                  refine Or.inr (Or.inr ⟨trivial,
                    (recordLine P (ledger.sealNext P entry) ++
                      [newline]).length, err, ?_⟩)
                  rw [List.take_length]
                  simp only [Ledger.writeLine, hsync, if_true]

/-- One append keeps the file tracked. -/
theorem Ledger.Tracks.append {path : String} {ledger : Ledger}
    {lines : List Bytes} {content : Bytes}
    (htracks : ledger.Tracks P path lines content) {entry : Entry}
    (hentry : entry.WithinLimit) (fault : Option WriteFault) :
    match ledger.append P path content entry fault with
    | (after, file, .ok record) =>
        after.Tracks P path (lines ++ [recordLine P record]) file
    | (after, file, .error _) => after.Tracks P path lines file := by
  rcases ledger.append_cases P path content entry fault with
    ⟨_, hresult⟩ | ⟨hlive, hresult⟩ | ⟨hlive, written, err, hresult⟩
  · rw [hresult]
    exact htracks
  · rw [hresult]
    exact htracks.advance P hlive hentry
  · rw [hresult]
    exact htracks.torn P hlive hentry written

theorem Ledger.Tracks.appendEach {path : String} {ledger : Ledger}
    {lines : List Bytes} {content : Bytes} {records : List RecordOut}
    (htracks : ledger.Tracks P path (lines ++ records.map (recordLine P))
      content) {entries : List (Entry × Option WriteFault)}
    (hentries : ∀ entry ∈ entries, entry.1.WithinLimit) :
    match Ledger.appendEach P path ledger content records entries with
    | (after, file, all, _) =>
        after.Tracks P path (lines ++ all.map (recordLine P)) file := by
  induction entries generalizing ledger content records with
  | nil => exact htracks
  | cons first rest ih =>
      obtain ⟨entry, fault⟩ := first
      have hstep := htracks.append P (hentries (entry, fault) (by simp)) fault
      have hrest : ∀ entry ∈ rest, entry.1.WithinLimit :=
        fun other hother => hentries other (by simp [hother])
      rw [Ledger.appendEach]
      generalize ledger.append P path content entry fault = result at hstep ⊢
      obtain ⟨after, file, outcome⟩ := result
      cases outcome with
      | error error => exact hstep
      | ok record =>
          apply ih _ hrest
          simpa using hstep

theorem Ledger.Tracks.appendAll {path : String} {ledger : Ledger}
    {lines : List Bytes} {content : Bytes}
    (htracks : ledger.Tracks P path lines content)
    {entries : List (Entry × Option WriteFault)}
    (hentries : ∀ entry ∈ entries, entry.1.WithinLimit)
    (syncFault : Option String) :
    match ledger.appendAll P path content entries syncFault with
    | (after, file, records, _) =>
        after.Tracks P path (lines ++ records.map (recordLine P)) file := by
  have hunsynced := htracks.setSync P false
  have hstart : ({ ledger with sync := false } : Ledger).Tracks P path
      (lines ++ ([] : List RecordOut).map (recordLine P)) content := by
    simpa using hunsynced
  have heach := hstart.appendEach P hentries
  unfold Ledger.appendAll
  generalize Ledger.appendEach P path { ledger with sync := false } content []
    entries = result at heach ⊢
  obtain ⟨last, file, records, outcome⟩ := result
  have hlast := heach.setSync P ledger.sync
  simp only
  split
  case isTrue =>
    cases syncFault with
    | none => exact hlast
    | some err => exact hlast.fail P
  case isFalse => exact hlast

/-! ## Opens -/

theorem prefixLines_torn_offset {earlier : List LedgerFile}
    {file : LedgerFile} {offset : ℕ}
    (htorn : (prefixLines (earlier ++ [file])).2 = some offset) :
    offset = (terminatedPrefix newline file.content).length := by
  rw [prefixLines_append_snd] at htorn
  split at htorn
  case isTrue => cases htorn
  case isFalse => exact (Option.some.inj htorn).symm

/-- An open leaves a file as it is or cut after its last line. -/
theorem resolveOpenHead_content (fault : Option OpenFault)
    (earlier : List LedgerFile) (path : String) (content : Bytes)
    (verifiers : List VerifyingKey) (signer : VerifyingKey)
    (anchor : Option (Option Bytes)) :
    (resolveOpenHead P fault earlier path content verifiers signer
        anchor).1 = content ∨
      (resolveOpenHead P fault earlier path content verifiers signer
        anchor).1 = terminatedPrefix newline content := by
  unfold resolveOpenHead
  split
  case h_1 => exact Or.inl rfl
  case h_2 =>
    split
    case h_1 => exact Or.inl rfl
    case h_2 => exact Or.inl rfl
    case h_3 report offset hjudge =>
      obtain ⟨_, _, _, _, _, htorn⟩ := (judgeOpenHead_eq_ok_iff P).mp hjudge
      have hoffset : offset = (terminatedPrefix newline content).length :=
        prefixLines_torn_offset htorn.symm
      split
      case isTrue =>
        unfold healTornTail
        cases failsAt fault .heal with
        | some err => exact Or.inl rfl
        | none =>
            cases failsAt fault .sync <;>
              exact Or.inr (by rw [hoffset, terminatedPrefix_length_take])
      case isFalse => exact Or.inl rfl

/-- An open that adopts a head judged it and cut the tail. -/
theorem resolveOpenHead_ok {fault : Option OpenFault}
    {earlier : List LedgerFile} {path : String} {content left : Bytes}
    {verifiers : List VerifyingKey} {signer : VerifyingKey}
    {anchor : Option (Option Bytes)} {report : VerifyReport}
    (hok : resolveOpenHead P fault earlier path content verifiers signer
      anchor = (left, .ok report)) :
    left = terminatedPrefix newline content ∧
      ∃ torn, judgeOpenHead P (earlier ++ [⟨path, content⟩]) verifiers signer
        anchor = .ok (report, torn) := by
  unfold resolveOpenHead at hok
  split at hok
  case h_1 => cases hok
  case h_2 =>
    split at hok
    case h_1 => cases hok
    case h_2 found hjudge =>
      cases hok
      refine ⟨?_, none, hjudge⟩
      obtain ⟨_, _, _, _, _, htorn⟩ := (judgeOpenHead_eq_ok_iff P).mp hjudge
      rw [prefixLines_append_snd] at htorn
      split at htorn
      case isTrue htail =>
        exact ((LineText.terminatedPrefix_eq_self_iff newline _).mpr
          htail).symm
      case isFalse => cases htorn
    case h_3 found offset hjudge =>
      obtain ⟨_, _, _, _, _, htorn⟩ := (judgeOpenHead_eq_ok_iff P).mp hjudge
      have hoffset : offset = (terminatedPrefix newline content).length :=
        prefixLines_torn_offset htorn.symm
      split at hok
      case isTrue =>
        unfold healTornTail at hok
        split at hok
        case h_1 => cases hok
        case h_2 healed hheal =>
          cases hok
          refine ⟨?_, some offset, hjudge⟩
          split at hheal
          case h_1 => cases hheal
          case h_2 =>
            split at hheal
            case h_1 => cases hheal
            case h_2 =>
              cases hheal
              rw [hoffset, terminatedPrefix_length_take]
      case isFalse => cases hok

/-- The head a verifier's state stands for. -/
theorem VerifyState.report_root {state : VerifyState}
    (hwell : state.WellFormed P) (keys : List VerifyingKey) :
    (state.report keys).root.getD genesis = state.prev := by
  unfold VerifyState.report
  by_cases hpos : state.count > 0
  · simp [hpos]
  · rw [if_neg hpos]
    exact (hwell.empty (by omega)).symm

/-- A handle on a verified prefix counts its lines. -/
theorem Ledger.opened_counts {path : String} {lines : List Bytes}
    {key : SigningKey} {verifiers : List VerifyingKey} {state : VerifyState}
    (hstate : verifyState P verifiers none (lines.map (decodeLine path)) =
      .ok state)
    (hown : P.verifyingKey key ∈ verifiers)
    (hfree : Succession.successor state.signers
      (keyFingerprint (P.verifyingKey key)) = none) :
    (Ledger.opened key verifiers (state.report verifiers).root
      (state.report verifiers).entries
      (state.report verifiers).signers).Counts P path lines where
  state := by
    refine ⟨state, hstate, rfl, ?_, rfl⟩
    exact (state.report_root P (verifyState_wellFormed P hstate) _).symm
  own := hown
  free := hfree

/-- An open that succeeds gives a handle that counts the file's lines. -/
theorem openSingleInner_tracks {target : Target} {fault : Option OpenFault}
    {path : String} {file left : Option Bytes} {key : SigningKey}
    {retired : List VerifyingKey} {anchor : Option (Option Bytes)}
    {ledger : Ledger}
    (hok : openSingleInner P target fault path file key retired anchor =
      (left, .ok ledger)) :
    ∃ content, left = some content ∧ ledger.failed = false ∧
      ledger.Tracks P path (cut newline content).1 content := by
  have hown := keyring_mem P key retired
  unfold openSingleInner at hok
  simp only at hok
  split at hok
  case h_1 => cases hok
  case h_2 content hlock =>
    split at hok
    case h_1 => cases hok
    case h_2 healed report hresolve =>
      split at hok
      case h_1 => cases hok
      case h_2 =>
        cases hok
        obtain ⟨rfl, torn, hjudge⟩ := resolveOpenHead_ok P hresolve
        obtain ⟨state, hstate, _, hfree, rfl, _⟩ :=
          (judgeOpenHead_eq_ok_iff P).mp hjudge
        rw [List.nil_append, verifyState_single] at hstate
        refine ⟨_, rfl, rfl, ?_⟩
        rw [LineText.cut_terminatedPrefix]
        constructor
        · exact Ledger.opened_counts P hstate hown hfree
        · exact fun _ hline => LineText.sep_notMem_of_mem_cut newline hline
        · exact fun _ => rfl
        · exact ⟨[], by rw [List.append_nil]; rfl, Or.inl rfl⟩
  case h_3 hlock =>
    split at hok
    case h_1 => cases hok
    case h_2 =>
      split at hok
      case h_1 => cases hok
      case h_2 =>
        cases hok
        refine ⟨[], rfl, rfl, ?_⟩
        constructor
        · exact ⟨⟨{}, rfl, rfl, rfl, rfl⟩, hown, rfl⟩
        · simp
        · exact fun _ => rfl
        · exact ⟨[], rfl, Or.inl rfl⟩

/-! ## Terminated lines are never touched -/

/-- No byte of a terminated line is changed or removed. -/
def Frozen (before after : World) : Prop :=
  terminatedPrefix newline (before.file.getD []) <+: after.file.getD []

theorem openSingleInner_frozen (target : Target) (fault : Option OpenFault)
    (path : String) (file : Option Bytes) (key : SigningKey)
    (retired : List VerifyingKey) (anchor : Option (Option Bytes)) :
    terminatedPrefix newline (file.getD []) <+:
      (openSingleInner P target fault path file key retired
        anchor).1.getD [] := by
  have hself := LineText.terminatedPrefix_isPrefix newline (file.getD [])
  have hlock : (lockSingleWriter target fault path file).1.getD [] =
      file.getD [] := by
    unfold lockSingleWriter
    split
    case h_1 => rfl
    case h_2 => cases target <;> cases failsAt fault .lock <;> rfl
  unfold openSingleInner
  simp only
  split
  case h_1 locked error heq =>
    rw [heq] at hlock
    simpa [hlock] using hself
  case h_2 content heq =>
    rw [heq] at hlock
    simp only [Option.getD_some] at hlock
    have hcontent := resolveOpenHead_content P fault [] path content
      (keyring P key retired) (P.verifyingKey key) anchor
    rw [hlock] at hcontent ⊢
    have hresolved : terminatedPrefix newline (file.getD []) <+:
        (resolveOpenHead P fault [] path (file.getD [])
          (keyring P key retired) (P.verifyingKey key) anchor).1 := by
      rcases hcontent with heq | heq
      · rw [heq]
        exact hself
      · rw [heq]
    split
    case h_1 heq => simpa [heq] using hresolved
    case h_2 heq =>
      rw [heq] at hresolved
      split <;> exact hresolved
  case h_3 heq =>
    rw [heq] at hlock
    have hempty : file.getD [] = [] := hlock.symm
    rw [hempty]
    exact List.nil_prefix

theorem append_isPrefix (ledger : Ledger) (path : String) (file : Bytes)
    (entry : Entry) (fault : Option WriteFault) :
    file <+: (ledger.append P path file entry fault).2.1 := by
  rcases ledger.append_cases P path file entry fault with
    ⟨_, hresult⟩ | ⟨_, hresult⟩ | ⟨_, _, _, hresult⟩
  · rw [hresult]
  · rw [hresult]
    exact List.prefix_append _ _
  · rw [hresult]
    exact List.prefix_append _ _

theorem appendEach_isPrefix (path : String) (ledger : Ledger) (file : Bytes)
    (records : List RecordOut) (entries : List (Entry × Option WriteFault)) :
    file <+:
      (Ledger.appendEach P path ledger file records entries).2.1 := by
  induction entries generalizing ledger file records with
  | nil => exact List.prefix_refl _
  | cons first rest ih =>
      have hstep := append_isPrefix P ledger path file first.1 first.2
      rw [Ledger.appendEach]
      generalize ledger.append P path file first.1 first.2 = result at hstep ⊢
      obtain ⟨after, next, outcome⟩ := result
      cases outcome with
      | error error => exact hstep
      | ok record => exact List.IsPrefix.trans hstep (ih _ _ _)

theorem appendAll_isPrefix (ledger : Ledger) (path : String) (file : Bytes)
    (entries : List (Entry × Option WriteFault))
    (syncFault : Option String) :
    file <+: (ledger.appendAll P path file entries syncFault).2.1 := by
  have heach := appendEach_isPrefix P path { ledger with sync := false } file
    [] entries
  unfold Ledger.appendAll
  generalize Ledger.appendEach P path { ledger with sync := false } file []
    entries = result at heach ⊢
  obtain ⟨last, next, records, outcome⟩ := result
  simp only
  split
  case isTrue => cases syncFault <;> exact heach
  case isFalse => exact heach

/-- No operation touches a terminated line, whatever it returns. -/
theorem step_frozen (target : Target) (path : String) (world : World)
    (operation : Operation) :
    Frozen world (world.step P target path operation) := by
  have hself := LineText.terminatedPrefix_isPrefix newline
    (world.file.getD [])
  unfold Frozen World.step
  split
  case h_1 key retired anchor fault hsession =>
    have hopen := openSingleInner_frozen P target fault path world.file key
      retired anchor
    generalize openSingleInner P target fault path world.file key retired
      anchor = result at hopen ⊢
    obtain ⟨left, outcome⟩ := result
    cases outcome <;> exact hopen
  case h_2 => exact hself
  case h_3 => exact hself
  case h_4 session entry fault hsession =>
    have happend := append_isPrefix P session.ledger path
      (world.file.getD []) entry fault
    generalize session.ledger.append P path (world.file.getD []) entry
      fault = result at happend ⊢
    obtain ⟨after, next, outcome⟩ := result
    cases outcome <;> exact hself.trans happend
  case h_5 session entries syncFault hsession =>
    exact hself.trans (appendAll_isPrefix P session.ledger path
      (world.file.getD []) entries syncFault)
  case h_6 => exact hself
  case h_7 => exact hself
  case h_8 => exact hself

/-! ## Runs of one writer -/

/-- The file is as the open handle left it. -/
def World.Tracked (path : String) (world : World) : Prop :=
  ∀ session, world.session = some session →
    ∃ content, world.file = some content ∧
      session.ledger.Tracks P path session.lines content

theorem Session.appended_tracked {path : String} {session : Session}
    {ledger : Ledger} {file : Bytes} {records : List RecordOut}
    (htracks : ledger.Tracks P path
      (session.lines ++ records.map (recordLine P)) file) :
    (session.appended P ledger file records).Tracked P path := by
  rintro _ ⟨⟩
  exact ⟨file, rfl, htracks⟩

theorem step_tracked (target : Target) (path : String) (world : World)
    (operation : Operation) (hworld : world.Tracked P path)
    (hoperation : operation.WithinLimit) :
    (world.step P target path operation).Tracked P path := by
  unfold World.step
  split
  case h_1 key retired anchor fault hsession =>
    split
    case h_1 file error hopen =>
      intro session hnone
      cases hnone
    case h_2 file ledger hopen =>
      obtain ⟨content, rfl, _, htracks⟩ := openSingleInner_tracks P hopen
      rintro _ ⟨⟩
      exact ⟨content, rfl, htracks⟩
  case h_2 => exact hworld
  case h_3 => exact hworld
  case h_4 session entry fault hsession =>
    obtain ⟨content, hfile, htracks⟩ := hworld session hsession
    have happend := htracks.append P hoperation fault
    rw [hfile, Option.getD_some]
    generalize session.ledger.append P path content entry fault = result at *
    obtain ⟨after, file, outcome⟩ := result
    cases outcome with
    | error error =>
        apply Session.appended_tracked
        simpa using happend
    | ok record =>
        apply Session.appended_tracked
        simpa using happend
  case h_5 session entries syncFault hsession =>
    obtain ⟨content, hfile, htracks⟩ := hworld session hsession
    have happend := htracks.appendAll P hoperation syncFault
    rw [hfile, Option.getD_some]
    exact Session.appended_tracked P happend
  case h_6 session newKey hsession =>
    obtain ⟨content, hfile, htracks⟩ := hworld session hsession
    rintro _ ⟨⟩
    refine ⟨content, hfile, htracks.congr P
      (htracks.counts.rotate P newKey) ?_ ?_⟩
    · unfold Ledger.rotate
      simp only
      split
      case h_1 => exact ⟨[], by simp⟩
      case h_2 => exact keyring_eq_append P newKey _
    · unfold Ledger.rotate
      simp only
      split <;> exact id
  case h_7 session sync hsession =>
    obtain ⟨content, hfile, htracks⟩ := hworld session hsession
    rintro _ ⟨⟩
    exact ⟨content, hfile, htracks.setSync P sync⟩
  case h_8 =>
    intro session hnone
    cases hnone

theorem after_tracked (target : Target) (path : String) (file : Option Bytes)
    {operations : List Operation}
    (hoperations : ∀ operation ∈ operations, operation.WithinLimit) :
    (World.after P target path file operations).Tracked P path := by
  apply StateRun.run_preserves (World.step P target path)
    (step_tracked P target path)
  · intro session hnone
    cases hnone
  · exact hoperations

/-! ## The verifier's word for it -/

/-- A report that equals the handle's cached head. -/
structure Ledger.HeadIs (ledger : Ledger) (report : VerifyReport) :
    Prop where
  entries : report.entries = ledger.nextSeq
  root : report.root.getD genesis = ledger.lastHash
  rootless : report.root = none ↔ ledger.nextSeq = 0
  genesis : P.NoGenesisDigest →
    (report.root = none ↔ ledger.lastHash = genesis)
  signers : report.signers = ledger.signers

/-- A live handle's file verifies to its head; a stopped one's terminated
prefix verifies and is the handle's lines and at most one more. -/
structure Session.Verifies (path : String) (session : Session)
    (content : Bytes) : Prop where
  head : ∃ report,
    verifyWithKeys P session.ledger.verifiers
      [⟨path, joined newline session.lines⟩] = .ok report ∧
    session.ledger.HeadIs P report
  live : session.ledger.failed = false →
    content = joined newline session.lines
  stopped : session.ledger.failed = true →
    (∃ report, verifyWithKeys P session.ledger.verifiers
      [⟨path, terminatedPrefix newline content⟩] = .ok report) ∧
    (terminatedPrefix newline content = joined newline session.lines ∨
      ∃ line, newline ∉ line ∧ terminatedPrefix newline content =
        joined newline (session.lines ++ [line]))

theorem verifyWithKeys_joined {path : String} {verifiers : List VerifyingKey}
    {lines : List Bytes} {state : VerifyState}
    (hlines : ∀ line ∈ lines, newline ∉ line)
    (hstate : verifyState P verifiers none (lines.map (decodeLine path)) =
      .ok state) :
    verifyWithKeys P verifiers [⟨path, joined newline lines⟩] =
      .ok (state.report verifiers) := by
  have hcut := LineText.cut_joined newline hlines
  have hself : terminatedPrefix newline (joined newline lines) =
      joined newline lines := by rw [terminatedPrefix, hcut]
  rw [← hself, verifyWithKeys_terminatedPrefix, verifyState_single, hcut]
  exact ⟨state, hstate, rfl⟩

/-- The head a handle caches is the one the verifier reports. -/
theorem Ledger.Counts.head {path : String} {ledger : Ledger}
    {lines : List Bytes} (hcounts : ledger.Counts P path lines) :
    ∃ state,
      verifyState P ledger.verifiers none (lines.map (decodeLine path)) =
        .ok state ∧
      ledger.HeadIs P (state.report ledger.verifiers) := by
  obtain ⟨state, hstate, hcount, hprev, hsigners⟩ := hcounts.state
  have hwell := verifyState_wellFormed P hstate
  have hrootless : (state.report ledger.verifiers).root = none ↔
      ledger.nextSeq = 0 := by
    simp [VerifyState.report, ← hcount]
  refine ⟨state, hstate, ?_⟩
  constructor
  · exact hcount
  · rw [state.report_root P hwell, hprev]
  · exact hrootless
  · intro hdigest
    rw [hrootless, ← hcount, ← hprev]
    constructor
    · exact hwell.empty
    · intro hgenesis
      by_contra hne
      obtain ⟨bytes, hbytes⟩ := hwell.digest (Nat.pos_of_ne_zero hne)
      exact hdigest bytes (hbytes.symm.trans hgenesis)
  · exact hsigners

theorem Ledger.Counts.headIs {path : String} {ledger : Ledger}
    {lines : List Bytes} (hcounts : ledger.Counts P path lines)
    (hlines : ∀ line ∈ lines, newline ∉ line) :
    ∃ report,
      verifyWithKeys P ledger.verifiers [⟨path, joined newline lines⟩] =
        .ok report ∧
      ledger.HeadIs P report := by
  obtain ⟨state, hstate, hhead⟩ := hcounts.head P
  exact ⟨_, verifyWithKeys_joined P hlines hstate, hhead⟩

theorem Ledger.Tracks.verifies {path : String} {session : Session}
    {content : Bytes}
    (htracks : session.ledger.Tracks P path session.lines content) :
    session.Verifies P path content := by
  have hhead := htracks.counts.headIs P htracks.complete
  refine ⟨hhead, htracks.live, fun _ => ?_⟩
  have hlines := htracks.complete
  have hcut := LineText.cut_joined newline hlines
  obtain ⟨report, hreport, _⟩ := hhead
  obtain ⟨left, rfl, rfl | ⟨line, written, hline, rfl, state, hstate⟩⟩ :=
    htracks.stopped
  · rw [List.append_nil, terminatedPrefix, hcut]
    exact ⟨⟨report, hreport⟩, Or.inl rfl⟩
  · have hmore : ∀ other ∈ session.lines ++ [line], newline ∉ other := by
      intro other hother
      rcases List.mem_append.mp hother with hbefore | hlast
      · exact hlines other hbefore
      · rw [List.mem_singleton.mp hlast]
        exact hline
    by_cases hwhole : (line ++ [newline]).length ≤ written
    · rw [List.take_of_length_le hwhole]
      have hjoined : joined newline session.lines ++ (line ++ [newline]) =
          joined newline (session.lines ++ [line]) := by simp
      rw [hjoined, terminatedPrefix, LineText.cut_joined newline hmore]
      exact ⟨⟨_, verifyWithKeys_joined P hmore hstate⟩,
        Or.inr ⟨line, hline, rfl⟩⟩
    · have hpart : (line ++ [newline]).take written = line.take written := by
        rw [List.length_append, List.length_singleton] at hwhole
        exact List.take_append_of_le_length (by omega)
      have hfree : newline ∉ line.take written :=
        fun hmem => hline (List.mem_of_mem_take hmem)
      rw [hpart, terminatedPrefix, LineText.cut_joined_append newline hlines,
        LineText.cut_eq_of_notMem newline hfree, List.append_nil]
      exact ⟨⟨report, hreport⟩, Or.inl rfl⟩

/-- Every state of a path is one the verifier accepts. -/
def World.Verifies (path : String) (world : World) : Prop :=
  ∀ session, world.session = some session →
    ∃ content, world.file = some content ∧ session.Verifies P path content

/-- Whatever one writer does to a path, with entries the parser can read
back, the verifier agrees with its head, and no operation touches a
terminated line. -/
theorem single_writer_verifies (target : Target) (path : String)
    (file : Option Bytes) (operations : List Operation)
    (hoperations : ∀ operation ∈ operations, operation.WithinLimit) :
    (World.after P target path file operations).Verifies P path ∧
      ∀ operation, Frozen (World.after P target path file operations)
        ((World.after P target path file operations).step P target path
          operation) := by
  refine ⟨fun session hsession => ?_, fun operation => ?_⟩
  · obtain ⟨content, hfile, htracks⟩ :=
      after_tracked P target path file hoperations session hsession
    exact ⟨content, hfile, htracks.verifies P⟩
  · exact step_frozen P target path _ operation

theorem single_writer_verifies_sample :
    (World.after samplePlatform .unix "ledger" none
      [.open (sampleKey 1) [] none none,
        .append (sampleEntry .null) none]).Verifies samplePlatform "ledger" :=
  (single_writer_verifies samplePlatform .unix "ledger" none
    [.open (sampleKey 1) [] none none, .append (sampleEntry .null) none]
    (by simp [Operation.WithinLimit, Entry.WithinLimit, sampleEntry,
      Serde.Value.nesting, Serde.recursionLimit])).1

/-- The handle on a path that did not exist. -/
theorem after_open_none (target : Target) (path : String)
    (key : SigningKey) :
    World.after P target path none [.open key [] none none] =
      { file := some []
        session := some
          { ledger := Ledger.opened key (keyring P key []) none 0 []
            lines := [] } } := by
  have hopen : openSingleInner P target none path none key [] none =
      (some [], .ok (Ledger.opened key (keyring P key []) none 0 [])) := by
    cases target <;> rfl
  simp only [World.after, StateRun.run_cons, StateRun.run_nil, World.step,
    hopen]
  rfl

/-- An append that is written whole verifies exactly when its entry is within
the limit. -/
theorem append_verifies_iff {target : Target} {path : String}
    {session : Session} {content : Bytes}
    (htracks : session.ledger.Tracks P path session.lines content)
    (hlive : session.ledger.failed = false) (entry : Entry) :
    (World.step P target path { file := some content, session := session }
      (.append entry none)).Verifies P path ↔ entry.WithinLimit := by
  have hstep : World.step P target path
      { file := some content, session := session } (.append entry none) =
        session.appended P (session.ledger.advance P entry)
          (content ++ (recordLine P (session.ledger.sealNext P entry) ++
            [newline])) [session.ledger.sealNext P entry] := by
    simp [World.step, Ledger.append, hlive, Ledger.writeLine]
  rw [hstep]
  constructor
  · intro hverifies
    by_contra hentry
    obtain ⟨_, _, hsession⟩ := hverifies _ rfl
    obtain ⟨report, hreport, _⟩ := hsession.head
    obtain ⟨error, herror⟩ :=
      verifyState_sealNext_error P htracks.counts hentry
    have hlines : ∀ line ∈
        session.lines ++ [recordLine P (session.ledger.sealNext P entry)],
          newline ∉ line := by
      intro line hline
      rcases List.mem_append.mp hline with hbefore | hlast
      · exact htracks.complete line hbefore
      · rw [List.mem_singleton.mp hlast]
        exact newline_notMem_recordLine P _
    have hcut := LineText.cut_joined newline hlines
    have hself : terminatedPrefix newline (joined newline (session.lines ++
        [recordLine P (session.ledger.sealNext P entry)])) = joined newline
          (session.lines ++
            [recordLine P (session.ledger.sealNext P entry)]) := by
      rw [terminatedPrefix, hcut]
    rw [List.map_singleton, ← hself, verifyWithKeys_terminatedPrefix,
      verifyState_single, hcut] at hreport
    obtain ⟨state, hstate, _⟩ := hreport
    rw [Ledger.advance, herror] at hstate
    cases hstate
  · intro hentry _ hsession
    cases hsession
    exact ⟨_, rfl, Ledger.Tracks.verifies P
      (by simpa using htracks.advance P hlive hentry)⟩

/-- One entry with 127 levels of arrays in its context is appended without an
error, and the verifier refuses the file from then on. -/
theorem deep_entry_breaks_verification :
    ¬ ∀ (target : Target) (path : String) (file : Option Bytes)
      (operations : List Operation),
      (World.after samplePlatform target path file operations).Verifies
        samplePlatform path := by
  intro hall
  have hworld := hall .unix "ledger" none
    [.open (sampleKey 1) [] none none,
      .append (sampleEntry (nestedArrays 127)) none]
  have hstart := after_open_none samplePlatform .unix "ledger" (sampleKey 1)
  have hrun : World.after samplePlatform .unix "ledger" none
      [.open (sampleKey 1) [] none none,
        .append (sampleEntry (nestedArrays 127)) none] =
      World.step samplePlatform .unix "ledger"
        (World.after samplePlatform .unix "ledger" none
          [.open (sampleKey 1) [] none none])
        (.append (sampleEntry (nestedArrays 127)) none) := rfl
  have htracked := after_tracked samplePlatform .unix "ledger" none
    (show ∀ operation ∈ [Operation.open (sampleKey 1) [] none none],
      operation.WithinLimit by simp [Operation.WithinLimit])
  rw [hrun, hstart] at hworld
  rw [hstart] at htracked
  obtain ⟨content, hcontent, htracks⟩ := htracked _ rfl
  cases hcontent
  have hentry := (append_verifies_iff samplePlatform htracks rfl _).mp hworld
  simp [Entry.WithinLimit, sampleEntry, Serde.recursionLimit] at hentry

end Decern
