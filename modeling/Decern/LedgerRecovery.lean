import Decern.LedgerRuns
import Mathlib.Tactic

/-!
# Recovering from a crash

A crash during an append leaves the acknowledged lines and a beginning of the
lines in flight.  Cutting after the last newline keeps the in-flight lines
that are complete, and the head the open recomputes is the one the writer
would have had after them.
-/

namespace Decern

open ByteText (Bytes newline)
open LineText (cut joined joined_nil terminatedPrefix)

variable (P : Platform)

/-! ## Lines in flight -/

/-- The records a handle would write for some entries. -/
def Ledger.sealAll (ledger : Ledger) : List Entry → List RecordOut
  | [] => []
  | entry :: rest =>
      ledger.sealNext P entry :: (ledger.advance P entry).sealAll rest

/-- The handle after them. -/
def Ledger.advanceAll (ledger : Ledger) (entries : List Entry) : Ledger :=
  entries.foldl (Ledger.advance P) ledger

/-- Their lines. -/
def Ledger.inFlight (ledger : Ledger) (entries : List Entry) : List Bytes :=
  (ledger.sealAll P entries).map (recordLine P)

theorem sealAll_take (ledger : Ledger) (entries : List Entry) (count : ℕ) :
    ledger.sealAll P (entries.take count) =
      (ledger.sealAll P entries).take count := by
  induction entries generalizing ledger count with
  | nil => simp [Ledger.sealAll]
  | cons entry rest ih =>
      cases count with
      | zero => rfl
      | succ count =>
          simp only [List.take_succ_cons, Ledger.sealAll, ih]

theorem inFlight_take (ledger : Ledger) (entries : List Entry) (count : ℕ) :
    ledger.inFlight P (entries.take count) =
      (ledger.inFlight P entries).take count := by
  rw [Ledger.inFlight, sealAll_take, List.map_take, Ledger.inFlight]

theorem newline_notMem_inFlight (ledger : Ledger) (entries : List Entry) :
    ∀ line ∈ ledger.inFlight P entries, newline ∉ line := by
  intro line hline
  obtain ⟨record, _, rfl⟩ := List.mem_map.mp hline
  exact newline_notMem_recordLine P record

/-- Without a fault `append_all` writes exactly the lines in flight. -/
theorem appendEach_none (path : String) (ledger : Ledger) (file : Bytes)
    (records : List RecordOut) (entries : List Entry)
    (hlive : ledger.failed = false) :
    Ledger.appendEach P path ledger file records
        (entries.map fun entry => (entry, none)) =
      (ledger.advanceAll P entries,
        file ++ joined newline (ledger.inFlight P entries),
        records ++ ledger.sealAll P entries, .ok ()) := by
  induction entries generalizing ledger file records with
  | nil => simp [Ledger.appendEach, Ledger.advanceAll, Ledger.inFlight,
      Ledger.sealAll]
  | cons entry rest ih =>
      have hnext : (ledger.advance P entry).failed = false := hlive
      have happend : ledger.append P path file entry none =
          (ledger.advance P entry,
            file ++ (recordLine P (ledger.sealNext P entry) ++ [newline]),
            .ok (ledger.sealNext P entry)) := by
        simp [Ledger.append, hlive, Ledger.writeLine]
      rw [List.map_cons, Ledger.appendEach, happend]
      simp only [ih _ _ _ hnext]
      simp [Ledger.advanceAll, Ledger.inFlight, Ledger.sealAll]

theorem Ledger.Counts.advanceAll {path : String} {ledger : Ledger}
    {lines : List Bytes} (hcounts : ledger.Counts P path lines)
    {entries : List Entry} (hentries : ∀ entry ∈ entries, entry.WithinLimit) :
    (ledger.advanceAll P entries).Counts P path
      (lines ++ ledger.inFlight P entries) := by
  induction entries generalizing ledger lines with
  | nil => simpa [Ledger.advanceAll, Ledger.inFlight, Ledger.sealAll]
  | cons entry rest ih =>
      have hnext := hcounts.advance P (hentries entry (by simp))
      have hrest := ih hnext fun other hother =>
        hentries other (by simp [hother])
      simpa [Ledger.advanceAll, Ledger.inFlight, Ledger.sealAll] using hrest

/-! ## Reopening -/

/-- A handle as an open gives it. -/
def Ledger.reopened (ledger : Ledger) : Ledger :=
  { ledger with sync := false, failed := false }

theorem advanceAll_fixed (ledger : Ledger) (entries : List Entry) :
    (ledger.advanceAll P entries).key = ledger.key ∧
      (ledger.advanceAll P entries).verifiers = ledger.verifiers := by
  induction entries generalizing ledger with
  | nil => exact ⟨rfl, rfl⟩
  | cons entry rest ih => exact ih (ledger.advance P entry)

/-- A beginning of a record's line begins a record. -/
theorem begins_of_isPrefix {left : Bytes} {record : RecordOut}
    (hleft : left <+: recordLine P record) :
    left = [] ∨ left.head? = some 123 := by
  obtain ⟨inside, hline⟩ := encode_line_braces P record
  obtain ⟨rest, hrest⟩ := hleft
  cases left with
  | nil => exact Or.inl rfl
  | cons byte others =>
      rw [recordLine, hline] at hrest
      exact Or.inr (by simp_all)

/-- Files whose terminated lines a handle counts give that handle's head. -/
theorem resolveOpenHead_counted {path file : String} {ledger : Ledger}
    {lines : List Bytes} {earlier : List LedgerFile} {content : Bytes}
    {retired : List VerifyingKey} (hcounts : ledger.Counts P path lines)
    (hread : ReadAs lines (prefixLines (earlier ++ [⟨file, content⟩])).1)
    (hring : keyring P ledger.key retired = ledger.verifiers)
    (htail : (cut newline content).2 = [] ∨
      (cut newline content).2.head? = some 123) :
    ∃ report,
      resolveOpenHead P none earlier file content
          (keyring P ledger.key retired) (P.verifyingKey ledger.key) none =
        (terminatedPrefix newline content, .ok report) ∧
      Ledger.opened ledger.key ledger.verifiers report.root report.entries
        report.signers = ledger.reopened := by
  obtain ⟨state, hstate, hcount, hprev, hsigners⟩ := hcounts.state
  have hjudged : judgeOpenHead P (earlier ++ [⟨file, content⟩])
      (keyring P ledger.key retired) (P.verifyingKey ledger.key) none =
        .ok (state.report ledger.verifiers,
          (prefixLines (earlier ++ [⟨file, content⟩])).2) := by
    rw [judgeOpenHead_eq_ok_iff, hring]
    refine ⟨state, ?_, ?_, ?_, rfl, rfl⟩
    · exact (verifyState_readAs P hread path).mpr hstate
    · intro bytes hnone
      cases hnone
    · rw [hsigners]
      exact hcounts.free
  have hroot := state.report_root P (verifyState_wellFormed P hstate)
    ledger.verifiers
  rcases resolveOpenHead_unfaulted P earlier file content
      (keyring P ledger.key retired) (P.verifyingKey ledger.key) none with
    ⟨report, torn, hjudge, _, hresolve⟩ | ⟨hrefused, _⟩
  · rw [hjudged] at hjudge
    cases hjudge
    refine ⟨_, hresolve, ?_⟩
    rw [Ledger.opened, Ledger.reopened, hroot, hprev]
    simp only [VerifyState.report, hcount, hsigners]
  · exact absurd ⟨⟨_, hjudged⟩, htail⟩ hrefused

/-- Reopening a file whose terminated lines a handle counts, with that
handle's key and ring, gives the handle again. -/
theorem reopen_counted (target : Target) {path : String} {ledger : Ledger}
    {content : Bytes} {retired : List VerifyingKey}
    (hcounts : ledger.Counts P path (cut newline content).1)
    (hring : keyring P ledger.key retired = ledger.verifiers)
    (htail : (cut newline content).2 = [] ∨
      (cut newline content).2.head? = some 123) :
    openSingleInner P target none path (some content) ledger.key retired
        none =
      (some (terminatedPrefix newline content), .ok ledger.reopened) := by
  have hread : ReadAs (cut newline content).1
      (prefixLines ([] ++ [⟨path, content⟩])).1 := by
    rw [List.nil_append, prefixLines_single]
    exact readAs_map path _
  obtain ⟨report, hresolve, hopened⟩ :=
    resolveOpenHead_counted P hcounts hread hring htail
  rw [openSingleInner_some, hresolve, hring]
  simp only [hopened]

/-! ## A crash -/

/-- What a crash leaves: the acknowledged lines and the first bytes of the
lines in flight. -/
def Session.crashed (session : Session) (entries : List Entry)
    (written : ℕ) : Bytes :=
  joined newline session.lines ++
    (joined newline (session.ledger.inFlight P entries)).take written

/-- The lines in flight that are complete. -/
def Session.survivors (session : Session) (entries : List Entry)
    (written : ℕ) : List Bytes :=
  (cut newline
    ((joined newline (session.ledger.inFlight P entries)).take written)).1

theorem crashed_cut {path : String} {session : Session} {content : Bytes}
    (htracks : session.ledger.Tracks P path session.lines content)
    (entries : List Entry) (written : ℕ) :
    (cut newline (session.crashed P entries written)).1 =
        session.lines ++ session.survivors P entries written ∧
      session.survivors P entries written =
        session.ledger.inFlight P
          (entries.take (session.survivors P entries written).length) ∧
      ((cut newline (session.crashed P entries written)).2 = [] ∨
        (cut newline (session.crashed P entries written)).2.head? =
          some 123) := by
  have hflight := newline_notMem_inFlight P session.ledger entries
  have hcut := LineText.cut_joined_append newline htracks.complete
    ((joined newline (session.ledger.inFlight P entries)).take written)
  obtain ⟨complete, hstart, hfst, htail⟩ :=
    LineText.cut_take_joined newline hflight written
  have hsurvivors : session.survivors P entries written = complete := hfst
  rw [Session.crashed, hcut, hsurvivors]
  refine ⟨by rw [hfst], ?_, ?_⟩
  · rw [inFlight_take]
    exact List.prefix_iff_eq_take.mp hstart
  · rcases htail with hnil | ⟨line, rest, hsplit, hpart⟩
    · exact Or.inl hnil
    · have hmem : line ∈ session.ledger.inFlight P entries := by
        rw [hsplit]
        simp
      obtain ⟨record, _, rfl⟩ := List.mem_map.mp hmem
      exact begins_of_isPrefix P hpart

theorem crash_reopens (target : Target) {path : String} {session : Session}
    {content : Bytes} {retired : List VerifyingKey}
    (htracks : session.ledger.Tracks P path session.lines content)
    (hring : keyring P session.ledger.key retired = session.ledger.verifiers)
    {entries : List Entry} (hentries : ∀ entry ∈ entries, entry.WithinLimit)
    (written : ℕ) :
    openSingleInner P target none path
        (some (session.crashed P entries written)) session.ledger.key retired
        none =
      (some (joined newline
          (session.lines ++ session.survivors P entries written)),
        .ok (session.ledger.advanceAll P (entries.take
          (session.survivors P entries written).length)).reopened) := by
  obtain ⟨hlines, hsurvivors, htail⟩ :=
    crashed_cut P htracks entries written
  set count := (session.survivors P entries written).length with hcount
  have hkept : ∀ entry ∈ entries.take count, entry.WithinLimit :=
    fun entry hentry => hentries entry (List.mem_of_mem_take hentry)
  have hcounts := htracks.counts.advanceAll P hkept
  obtain ⟨hkey, hverifiers⟩ :=
    advanceAll_fixed P session.ledger (entries.take count)
  rw [← hsurvivors, ← hlines] at hcounts
  have hopen := reopen_counted P target hcounts
    (by rw [hkey, hverifiers, hring]) htail
  rw [hkey] at hopen
  rw [hopen, terminatedPrefix, hlines]

/-- The survivors are tracked as if their append had gone through. -/
theorem crash_tracked {path : String} {session : Session} {content : Bytes}
    (htracks : session.ledger.Tracks P path session.lines content)
    {entries : List Entry}
    (hentries : ∀ entry ∈ entries, entry.WithinLimit) (written : ℕ) :
    (session.ledger.advanceAll P (entries.take
        (session.survivors P entries written).length)).reopened.Tracks P path
      (session.lines ++ session.survivors P entries written)
      (joined newline
        (session.lines ++ session.survivors P entries written)) := by
  obtain ⟨_, hsurvivors, _⟩ := crashed_cut P htracks entries written
  set kept := entries.take (session.survivors P entries written).length
  have hkept : ∀ entry ∈ kept, entry.WithinLimit :=
    fun entry hentry => hentries entry (List.mem_of_mem_take hentry)
  have hcounts := htracks.counts.advanceAll P hkept
  rw [← hsurvivors] at hcounts
  constructor
  · exact ⟨hcounts.state, hcounts.own, hcounts.free⟩
  · intro line hline
    rcases List.mem_append.mp hline with hbefore | hafter
    · exact htracks.complete line hbefore
    · rw [hsurvivors] at hafter
      exact newline_notMem_inFlight P _ _ line hafter
  · exact fun _ => rfl
  · exact ⟨[], by rw [List.append_nil], Or.inl rfl⟩

/-! ## A stopped handle -/

/-- A stopped handle writes nothing, whatever is asked of it. -/
theorem appendEach_failed (path : String) {ledger : Ledger} (file : Bytes)
    (records : List RecordOut) (entries : List (Entry × Option WriteFault))
    (hfailed : ledger.failed = true) :
    (Ledger.appendEach P path ledger file records entries).1 = ledger ∧
      (Ledger.appendEach P path ledger file records entries).2.1 = file := by
  cases entries with
  | nil => exact ⟨rfl, rfl⟩
  | cons entry rest =>
      have happend : ledger.append P path file entry.1 entry.2 =
          (ledger, file, .error (Ledger.failedErr path)) := by
        simp [Ledger.append, hfailed]
      simp [Ledger.appendEach, happend]

/-- The handle is stopped, and the file is as it was. -/
def World.Stopped (file : Option Bytes) (world : World) : Prop :=
  world.file = file ∧
    ∃ session, world.session = some session ∧ session.ledger.failed = true

theorem step_stopped (target : Target) (path : String)
    (content : Bytes) (world : World) (operation : Operation)
    (hworld : world.Stopped (some content)) (hopen : operation ≠ .close) :
    (world.step P target path operation).Stopped (some content) := by
  obtain ⟨hfile, session, hsession, hfailed⟩ := hworld
  unfold World.step
  rw [hsession, hfile]
  cases operation with
  | «open» key retired anchor fault => exact ⟨hfile, session, hsession, hfailed⟩
  | append entry fault =>
      have happend : session.ledger.append P path content entry fault =
          (session.ledger, content, .error (Ledger.failedErr path)) := by
        simp [Ledger.append, hfailed]
      simp only [Option.getD_some, happend]
      exact ⟨rfl, _, rfl, hfailed⟩
  | appendAll entries syncFault =>
      have hunsynced : ({ session.ledger with sync := false } :
          Ledger).failed = true := hfailed
      obtain ⟨hledger, hcontent⟩ := appendEach_failed P path content []
        entries hunsynced
      simp only [Option.getD_some]
      unfold Ledger.appendAll
      generalize Ledger.appendEach P path
        { session.ledger with sync := false } content [] entries =
          result at *
      obtain ⟨last, file, records, outcome⟩ := result
      simp only at hledger hcontent
      subst hledger hcontent
      simp only
      split
      case isTrue =>
        cases syncFault with
        | none => exact ⟨rfl, _, rfl, hfailed⟩
        | some err => exact ⟨rfl, _, rfl, rfl⟩
      case isFalse => exact ⟨rfl, _, rfl, hfailed⟩
  | rotate newKey =>
      refine ⟨rfl, _, rfl, ?_⟩
      simp only [Ledger.rotate]
      split <;> exact hfailed
  | setSync sync => exact ⟨rfl, _, rfl, hfailed⟩
  | close => exact absurd rfl hopen

/-! ## The recovery -/

/-- Whatever a writer did and wherever a crash cut its lines in flight, a
reopen under the same ring recovers the acknowledged lines and the complete
ones after them, with the head the writer would have had; what it appends
next verifies, and a stopped handle adds nothing. -/
theorem crash_recovery (target : Target) (path : String)
    (file : Option Bytes) {operations : List Operation}
    (hoperations : ∀ operation ∈ operations, operation.WithinLimit) :
    (∀ session retired entries written,
      (World.after P target path file operations).session = some session →
      session.ledger.failed = false →
      keyring P session.ledger.key retired = session.ledger.verifiers →
      (∀ entry ∈ entries, entry.WithinLimit) →
      session.survivors P entries written <+:
          session.ledger.inFlight P entries ∧
      openSingleInner P target none path
          (some (session.crashed P entries written)) session.ledger.key
          retired none =
        (some (joined newline
            (session.lines ++ session.survivors P entries written)),
          .ok (session.ledger.advanceAll P (entries.take
            (session.survivors P entries written).length)).reopened) ∧
      ∀ entry, entry.WithinLimit →
        ∃ ledger content record report,
          (session.ledger.advanceAll P (entries.take
              (session.survivors P entries written).length)).reopened.append P
              path (joined newline
                (session.lines ++ session.survivors P entries written))
              entry none = (ledger, content, .ok record) ∧
          verifyWithKeys P ledger.verifiers [⟨path, content⟩] = .ok report ∧
          ledger.HeadIs P report) ∧
    ∀ session content later,
      (World.after P target path file operations).session = some session →
      (World.after P target path file operations).file = some content →
      session.ledger.failed = true →
      (∀ operation ∈ later, operation ≠ .close) →
      (StateRun.run (World.step P target path)
        (World.after P target path file operations) later).file =
          some content := by
  constructor
  · intro session retired entries written hsession hlive hring hentries
    obtain ⟨content, _, htracks⟩ :=
      after_tracked P target path file hoperations session hsession
    refine ⟨?_, crash_reopens P target htracks hring hentries written,
      fun entry hentry => ?_⟩
    · obtain ⟨_, hsurvivors, _⟩ := crashed_cut P htracks entries written
      rw [inFlight_take] at hsurvivors
      rw [hsurvivors]
      exact List.take_prefix _ _
    · have hafter := crash_tracked P htracks hentries written
      set reopened := (session.ledger.advanceAll P (entries.take
        (session.survivors P entries written).length)).reopened
      have hopened : reopened.failed = false := rfl
      have hnext := hafter.advance P hopened hentry
      obtain ⟨report, hreport, hhead⟩ :=
        hnext.counts.headIs P hnext.complete
      refine ⟨reopened.advance P entry,
        joined newline (session.lines ++
            session.survivors P entries written) ++
          (recordLine P (reopened.sealNext P entry) ++ [newline]),
        reopened.sealNext P entry, report, ?_, ?_, hhead⟩
      · simp only [Ledger.append, hopened, Bool.false_eq_true, if_false,
          Ledger.writeLine]
      · rw [hnext.live hopened]
        exact hreport
  · intro session content later hsession hfile hfailed hlater
    have hstopped := StateRun.run_preserves (World.step P target path)
      (step_stopped P target path content)
      (show (World.after P target path file operations).Stopped
        (some content) from ⟨hfile, session, hsession, hfailed⟩) hlater
    exact hstopped.1

/-- A handle just opened on a path that did not exist. -/
def sampleSession : Session where
  ledger := Ledger.opened (sampleKey 1)
    (keyring samplePlatform (sampleKey 1) []) none 0 []
  lines := []

theorem sampleSession_lines : sampleSession.lines = [] := rfl

theorem sampleSession_opened :
    World.after samplePlatform .unix "ledger" none
        [.open (sampleKey 1) [] none none] =
      { file := some [], session := some sampleSession } :=
  after_open_none samplePlatform .unix "ledger" (sampleKey 1)

theorem sampleSession_tracks :
    sampleSession.ledger.Tracks samplePlatform "ledger" sampleSession.lines
      [] := by
  have htracked := after_tracked samplePlatform .unix "ledger" none
    (show ∀ operation ∈ [Operation.open (sampleKey 1) [] none none],
      operation.WithinLimit by simp [Operation.WithinLimit])
  rw [sampleSession_opened] at htracked
  obtain ⟨_, hcontent, htracks⟩ := htracked sampleSession rfl
  cases hcontent
  exact htracks

/-- A handle with one acknowledged record. -/
def acknowledged : List Operation :=
  [.open (sampleKey 1) [] none none, .append (sampleEntry .null) none]

def acknowledgedSession : Session :=
  (World.after samplePlatform .unix "ledger" none acknowledged).session.get rfl

/-- The first of two lines in flight after it. -/
def flightLine : Bytes :=
  recordLine samplePlatform
    (acknowledgedSession.ledger.sealNext samplePlatform (sampleEntry .null))

/-- A crash between the two leaves the first. -/
theorem survivors_flightLine :
    acknowledgedSession.survivors samplePlatform
        [sampleEntry .null, sampleEntry .null]
        (flightLine ++ [newline]).length = [flightLine] := by
  have hline : newline ∉ flightLine := newline_notMem_recordLine _ _
  have hflight : ∀ others : List Bytes,
      (joined newline (flightLine :: others)).take
        (flightLine ++ [newline]).length = flightLine ++ [newline] := by
    intro others
    rw [LineText.joined_cons,
      List.append_cons flightLine newline (joined newline others),
      List.take_left]
  rw [Session.survivors, Ledger.inFlight, Ledger.sealAll, List.map_cons,
    ← flightLine, hflight]
  exact congrArg Prod.fst (LineText.cut_line_append newline hline [])

/-- A handle whose second append was torn. -/
def tornWorld : World :=
  World.after samplePlatform .unix "ledger" none
    (acknowledged ++
      [.append (sampleEntry .null) (some (.torn 5 "disk full"))])

theorem crash_recovery_sample :
    acknowledgedSession.lines.length = 1 ∧
    (∃ recovered ledger content record report,
      openSingleInner samplePlatform .unix none "ledger"
          (some (acknowledgedSession.crashed samplePlatform
            [sampleEntry .null, sampleEntry .null]
            (flightLine ++ [newline]).length)) (sampleKey 1) [] none =
        (some (joined newline (acknowledgedSession.lines ++ [flightLine])),
          .ok recovered) ∧
      recovered.append samplePlatform "ledger"
          (joined newline (acknowledgedSession.lines ++ [flightLine]))
          (sampleEntry .null) none = (ledger, content, .ok record) ∧
      verifyWithKeys samplePlatform ledger.verifiers [⟨"ledger", content⟩] =
        .ok report ∧
      ledger.HeadIs samplePlatform report) ∧
    (StateRun.run (World.step samplePlatform .unix "ledger") tornWorld
      [.append (sampleEntry .null) none]).file = tornWorld.file := by
  have hentry : (sampleEntry .null).WithinLimit := by decide
  refine ⟨rfl, ?_, ?_⟩
  · have hsession : (World.after samplePlatform .unix "ledger" none
        acknowledged).session = some acknowledgedSession :=
      (Option.some_get _).symm
    rcases (crash_recovery samplePlatform .unix "ledger" none
        (by simp [acknowledged, Operation.WithinLimit, hentry])).1
        acknowledgedSession [] [sampleEntry .null, sampleEntry .null]
        (flightLine ++ [newline]).length hsession rfl rfl
        (by simp [hentry]) with
      ⟨_, hopen, hnext⟩
    rw [survivors_flightLine] at hopen hnext
    rcases hnext (sampleEntry .null) hentry with
      ⟨ledger, content, record, report, happend, hrest⟩
    exact ⟨_, ledger, content, record, report, hopen, happend, hrest⟩
  · have hfile : tornWorld.file = some (tornWorld.file.get rfl) :=
      (Option.some_get _).symm
    rw [hfile]
    exact (crash_recovery samplePlatform .unix "ledger" none
      (by simp [acknowledged, Operation.WithinLimit, hentry])).2
      (tornWorld.session.get rfl) _ _ (Option.some_get _).symm hfile rfl
      (by simp)

/-- A file whose terminated lines do not verify is not opened. -/
theorem openSingleInner_refuses {target : Target} {path : String}
    {content : Bytes} {key : SigningKey} {retired : List VerifyingKey}
    {anchor : Option (Option Bytes)}
    (herror : ∃ error, verifyState P (keyring P key retired) none
      ((cut newline content).1.map (decodeLine path)) = .error error)
    (ledger : Ledger) :
    (openSingleInner P target none path (some content) key retired
      anchor).2 ≠ .ok ledger := by
  obtain ⟨error, herror⟩ := herror
  rw [openSingleInner_some]
  rcases resolveOpenHead_unfaulted P [] path content (keyring P key retired)
      (P.verifyingKey key) anchor with
    ⟨report, torn, hjudge, _, _⟩ | ⟨_, _, hresolve⟩
  · obtain ⟨state, hstate, _⟩ := (judgeOpenHead_eq_ok_iff P).mp hjudge
    rw [List.nil_append, verifyState_single, herror] at hstate
    cases hstate
  · rw [hresolve]
    simp

/-- A complete line whose entry nests too deep keeps the ledger from ever
opening again. -/
theorem deep_entry_breaks_recovery :
    ¬ ∀ (target : Target) (path : String) (file : Option Bytes)
      (operations : List Operation) (session : Session)
      (retired : List VerifyingKey) (entries : List Entry) (written : ℕ),
      (World.after samplePlatform target path file operations).session =
        some session →
      session.ledger.failed = false →
      keyring samplePlatform session.ledger.key retired =
        session.ledger.verifiers →
      ∃ ledger, (openSingleInner samplePlatform target none path
        (some (session.crashed samplePlatform entries written))
        session.ledger.key retired none).2 = .ok ledger := by
  intro hall
  have hdeep : ¬ (sampleEntry (nestedArrays 127)).WithinLimit := by
    simp [Entry.WithinLimit, sampleEntry, Serde.recursionLimit]
  generalize sampleEntry (nestedArrays 127) = deep at hdeep
  obtain ⟨error, herror⟩ := verifyState_sealNext_error samplePlatform
    sampleSession_tracks.counts hdeep
  have hlines := newline_notMem_inFlight samplePlatform
    sampleSession.ledger [deep]
  have hflight : sampleSession.ledger.inFlight samplePlatform [deep] =
      [recordLine samplePlatform
        (sampleSession.ledger.sealNext samplePlatform deep)] := by
    simp only [Ledger.inFlight, Ledger.sealAll, List.map_cons, List.map_nil]
  rw [sampleSession_lines, List.nil_append, ← hflight] at herror
  obtain ⟨ledger, hledger⟩ := hall .unix "ledger" none
    [.open (sampleKey 1) [] none none] sampleSession [] [deep]
    (joined newline
      (sampleSession.ledger.inFlight samplePlatform [deep])).length
    (by rw [sampleSession_opened]) rfl rfl
  rw [Session.crashed, List.take_length, sampleSession_lines, joined_nil,
    List.nil_append] at hledger
  apply openSingleInner_refuses samplePlatform _ ledger hledger
  rw [LineText.cut_joined newline hlines]
  exact ⟨error, herror⟩

end Decern
