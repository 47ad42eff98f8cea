import Decern.EvidenceExport
import Decern.LedgerRuns
import Mathlib.Tactic

/-!
# Evidence along a ledger's runs

Whatever happened to a ledger's file, its terminated lines are records sealed
under the keys its handles had, and they only grow.  So the records a handle
counts can be exported at any moment, and a tree head signed earlier commits to
the first of them.
-/

namespace Decern

open ByteText (Bytes newline)
open LineText (cut joined terminatedPrefix)

variable (P : Platform)

/-! ## Accepted snapshots -/

/-- The verifier accepts the bundle cut from a snapshot. -/
def EvidenceSnapshot.Accepted {ρ : Type} (snapshot : EvidenceSnapshot ρ)
    (text : ρ → String) (ring : List VerifyingKey)
    (against : Option TreeHead) : Prop :=
  (verifyEvidenceBundle P (bundleJson snapshot.checkpoint snapshot.treeHead
    (snapshot.records.map text)) ring against).accepted = true

/-- It accepts it alone, and against each of some tree heads. -/
def EvidenceSnapshot.Stands {ρ : Type} (snapshot : EvidenceSnapshot ρ)
    (text : ρ → String) (ring : List VerifyingKey)
    (signed : TreeHead → Prop) : Prop :=
  snapshot.Accepted P text ring none ∧
    ∀ th, signed th → 1 ≤ th.treeSize →
      snapshot.Accepted P text ring (some th)

/-- A tree head a handle signs, alone or in a snapshot. -/
def Ledger.Signs (ledger : Ledger) (location : Location) (th : TreeHead) :
    Prop :=
  ∃ tsMs, ledger.treeHead P location tsMs = .ok th ∨
    ∃ snapshot, ledger.snapshotForBundle P location tsMs = .ok snapshot ∧
      snapshot.treeHead = th

theorem Ledger.Signs.treeHead {ledger : Ledger} {location : Location}
    {th : TreeHead} (hsigns : ledger.Signs P location th) :
    ∃ tsMs, ledger.treeHead P location tsMs = .ok th := by
  obtain ⟨tsMs, hhead | ⟨snapshot, hsnapshot, rfl⟩⟩ := hsigns
  · exact ⟨tsMs, hhead⟩
  · refine ⟨tsMs, ?_⟩
    unfold Ledger.snapshotForBundle at hsnapshot
    unfold Ledger.treeHead
    cases hraw : Ledger.readRawRecords P location 0 ledger.nextSeq with
    | error error =>
        rw [hraw] at hsnapshot
        cases hsnapshot
    | ok records =>
        cases hleaves : ledger.merkleLeaves P location with
        | error error =>
            rw [hraw, hleaves] at hsnapshot
            cases hsnapshot
        | ok leaves =>
            rw [hraw, hleaves] at hsnapshot
            cases hsnapshot
            rfl

/-! ## Lines that can be exported -/

/-- A line a handle under a key of the ring wrote, read under `depth`
brackets. -/
def ExportedLine (depth : ℕ) (ring : List VerifyingKey) (line : Bytes) :
    Prop :=
  ∃ record : RecordOut, line = recordLine P record ∧
    record.entry.ReadsUnder depth ∧
    ∃ key ∈ ring, record.kid = some (keyFingerprint key)

/-- Every terminated line of a file is one. -/
def Exported (depth : ℕ) (ring : List VerifyingKey) (content : Bytes) :
    Prop :=
  ∀ line ∈ (cut newline content).1, ExportedLine P depth ring line

section Lines

variable {P} {depth : ℕ} {ring : List VerifyingKey}

theorem exportedLine_sealNext {ledger : Ledger} {entry : Entry}
    (hkey : P.verifyingKey ledger.key ∈ ring)
    (hentry : entry.ReadsUnder depth) :
    ExportedLine P depth ring (recordLine P (ledger.sealNext P entry)) :=
  ⟨_, rfl, hentry, _, hkey, rfl⟩

/-- Writing a part of one more line adds at most that line. -/
theorem Exported.append {lines : List Bytes} {line : Bytes}
    (hlines : ∀ other ∈ lines, newline ∉ other) (hline : newline ∉ line)
    (hexported : Exported P depth ring (joined newline lines))
    (hnext : ExportedLine P depth ring line) (written : ℕ) :
    Exported P depth ring (joined newline lines ++
      (line ++ [newline]).take written) := by
  have hmore : ∀ other ∈ lines ++ [line], newline ∉ other := by
    intro other hother
    rcases List.mem_append.mp hother with hbefore | hlast
    · exact hlines other hbefore
    · rw [List.mem_singleton.mp hlast]
      exact hline
  have hbegins : joined newline lines ++ (line ++ [newline]).take written <+:
      joined newline (lines ++ [line]) := by
    rw [LineText.joined_append]
    simp only [LineText.joined_cons, LineText.joined_nil]
    exact List.prefix_append_right_inj _ |>.mpr (List.take_prefix _ _)
  have hcut := LineText.cut_fst_mono newline hbegins
  rw [LineText.cut_joined newline hmore] at hcut
  intro other hother
  rcases List.mem_append.mp (hcut.subset hother) with hbefore | hlast
  · apply hexported
    rw [LineText.cut_joined newline hlines]
    exact hbefore
  · rw [List.mem_singleton.mp hlast]
    exact hnext

/-- Lines that can be exported are the lines of records that can. -/
theorem exists_records {lines : List Bytes}
    (hlines : ∀ line ∈ lines, ExportedLine P depth ring line) :
    ∃ records : List RecordOut, lines = records.map (recordLine P) ∧
      NamesKeysOf ring records ∧
      ∀ record ∈ records, record.entry.ReadsUnder depth := by
  induction lines with
  | nil => exact ⟨[], rfl, by simp [NamesKeysOf], by simp⟩
  | cons line rest ih =>
      obtain ⟨record, hline, hwithin, hkid⟩ := hlines line (by simp)
      obtain ⟨records, hrest, hnames, hall⟩ :=
        ih fun other hother => hlines other (by simp [hother])
      refine ⟨record :: records, by rw [hline, hrest]; rfl, ?_, ?_⟩
      · intro other hother
        rcases List.mem_cons.mp hother with rfl | hmem
        · exact hkid
        · exact hnames other hmem
      · intro other hother
        rcases List.mem_cons.mp hother with rfl | hmem
        · exact hwithin
        · exact hall other hmem

end Lines

/-! ## What each operation keeps -/

/-- Every entry an operation appends is one of these. -/
def Operation.Appends (among : Entry → Prop) : Operation → Prop
  | .append entry _ => among entry
  | .appendAll entries _ => ∀ entry ∈ entries, among entry.1
  | _ => True

theorem Operation.Appends.mono {among others : Entry → Prop}
    (hamong : ∀ entry, among entry → others entry) {operation : Operation}
    (hoperation : operation.Appends among) : operation.Appends others := by
  cases operation with
  | append entry fault => exact hamong entry hoperation
  | appendAll entries fault =>
      exact fun entry hentry => hamong entry.1 (hoperation entry hentry)
  | «open» => trivial
  | rotate => trivial
  | setSync => trivial
  | close => trivial

theorem Operation.Appends.withinLimit {operation : Operation}
    (hoperation : operation.Appends Entry.WithinLimit) :
    operation.WithinLimit := by
  cases operation <;> exact hoperation

/-- The key a handle signs under is in the ring. -/
def World.KeyIn (ring : List VerifyingKey) (world : World) : Prop :=
  ∀ session, world.session = some session →
    P.verifyingKey session.ledger.key ∈ ring

/-- A file as its handle left it, with every line ready for export. -/
structure World.Exports (depth : ℕ) (path : String)
    (ring : List VerifyingKey) (world : World) : Prop where
  tracked : world.Tracked P path
  exported : Exported P depth ring (world.file.getD [])
  keyed : world.KeyIn P ring

section Steps

variable {P} {depth : ℕ} {path : String} {ring : List VerifyingKey}

/-- An open leaves the terminated lines. -/
theorem openSingleInner_cut (target : Target) (fault : Option OpenFault)
    (path : String) (file : Option Bytes) (key : SigningKey)
    (retired : List VerifyingKey) (anchor : Option (Option Bytes)) :
    (cut newline ((openSingleInner P target fault path file key retired
        anchor).1.getD [])).1 = (cut newline (file.getD [])).1 := by
  have hlock : (lockSingleWriter target fault path file).1.getD [] =
      file.getD [] := by
    unfold lockSingleWriter
    split
    case h_1 => rfl
    case h_2 => cases target <;> cases failsAt fault .lock <;> rfl
  unfold openSingleInner
  simp only
  split
  case h_1 locked error heq =>
    rw [heq] at hlock
    rw [hlock]
  case h_2 content heq =>
    rw [heq] at hlock
    simp only [Option.getD_some] at hlock
    have hcontent := resolveOpenHead_content P fault [] path content
      (keyring P key retired) (P.verifyingKey key) anchor
    generalize resolveOpenHead P fault [] path content
      (keyring P key retired) (P.verifyingKey key) anchor = result
      at hcontent ⊢
    obtain ⟨left, outcome⟩ := result
    have hleft : (cut newline left).1 = (cut newline (file.getD [])).1 := by
      rw [← hlock]
      rcases hcontent with rfl | rfl
      · rfl
      · rw [LineText.cut_terminatedPrefix]
    cases outcome with
    | error error => exact hleft
    | ok report =>
        simp only
        split <;> exact hleft
  case h_3 heq =>
    rw [heq] at hlock
    have hempty : file.getD [] = [] := hlock.symm
    rw [hempty]
    split
    case h_1 => rfl
    case h_2 => split <;> rfl

/-- One append, whatever becomes of its write. -/
theorem Exported.appended {lines : List Bytes} {content : Bytes}
    {ledger : Ledger} (htracks : ledger.Tracks P path lines content)
    (hkey : P.verifyingKey ledger.key ∈ ring)
    (hexported : Exported P depth ring content) {entry : Entry}
    (hentry : entry.ReadsUnder depth) (fault : Option WriteFault) :
    match ledger.append P path content entry fault with
    | (after, file, _) =>
        Exported P depth ring file ∧ after.key = ledger.key := by
  have hnext := exportedLine_sealNext hkey hentry
  have hline := newline_notMem_recordLine P (ledger.sealNext P entry)
  rcases ledger.append_cases P path content entry fault with
    ⟨_, hresult⟩ | ⟨hlive, hresult⟩ | ⟨hlive, written, err, hresult⟩
  · rw [hresult]
    exact ⟨hexported, rfl⟩
  · have hcontent := htracks.live hlive
    rw [hcontent] at hexported
    have hwhole := hexported.append htracks.complete hline hnext
      (recordLine P (ledger.sealNext P entry) ++ [newline]).length
    rw [List.take_length, ← hcontent] at hwhole
    rw [hresult]
    exact ⟨hwhole, rfl⟩
  · have hcontent := htracks.live hlive
    rw [hcontent] at hexported
    have hpart := hexported.append htracks.complete hline hnext written
    rw [← hcontent] at hpart
    rw [hresult]
    exact ⟨hpart, rfl⟩

theorem Exported.appendEach (hdepth : 1 ≤ depth) {lines : List Bytes}
    {content : Bytes} {ledger : Ledger} {records : List RecordOut}
    (htracks : ledger.Tracks P path (lines ++ records.map (recordLine P))
      content)
    (hkey : P.verifyingKey ledger.key ∈ ring)
    (hexported : Exported P depth ring content)
    {entries : List (Entry × Option WriteFault)}
    (hentries : ∀ entry ∈ entries, entry.1.ReadsUnder depth) :
    match Ledger.appendEach P path ledger content records entries with
    | (after, file, _, _) =>
        Exported P depth ring file ∧ after.key = ledger.key := by
  induction entries generalizing ledger content records with
  | nil => exact ⟨hexported, rfl⟩
  | cons first rest ih =>
      obtain ⟨entry, fault⟩ := first
      have hentry := hentries (entry, fault) (by simp)
      have hstep := htracks.append P
        (hentry.mono hdepth : entry.WithinLimit) fault
      have hadded := Exported.appended htracks hkey hexported hentry fault
      rw [Ledger.appendEach]
      generalize ledger.append P path content entry fault = result
        at hstep hadded ⊢
      obtain ⟨after, file, outcome⟩ := result
      cases outcome with
      | error error => exact hadded
      | ok record =>
          have htracked : after.Tracks P path
              (lines ++ (records ++ [record]).map (recordLine P)) file := by
            simpa using hstep
          have hnext := ih htracked (by rw [hadded.2]; exact hkey) hadded.1
            fun other hother => hentries other (by simp [hother])
          exact ⟨hnext.1, hnext.2.trans hadded.2⟩

theorem Exported.appendAll (hdepth : 1 ≤ depth) {lines : List Bytes}
    {content : Bytes} {ledger : Ledger}
    (htracks : ledger.Tracks P path lines content)
    (hkey : P.verifyingKey ledger.key ∈ ring)
    (hexported : Exported P depth ring content)
    {entries : List (Entry × Option WriteFault)}
    (hentries : ∀ entry ∈ entries, entry.1.ReadsUnder depth)
    (syncFault : Option String) :
    Exported P depth ring
      (ledger.appendAll P path content entries syncFault).2.1 := by
  have hstart : ({ ledger with sync := false } : Ledger).Tracks P path
      (lines ++ ([] : List RecordOut).map (recordLine P)) content := by
    simpa using htracks.setSync P false
  have heach := Exported.appendEach hdepth hstart hkey hexported hentries
  unfold Ledger.appendAll
  generalize Ledger.appendEach P path { ledger with sync := false } content []
    entries = result at heach ⊢
  obtain ⟨last, file, records, outcome⟩ := result
  simp only
  split
  case isTrue => cases syncFault <;> exact heach.1
  case isFalse => exact heach.1

/-- Every operation under a key of the ring keeps the lines ready. -/
theorem step_exports (hdepth : 1 ≤ depth) (target : Target) (world : World)
    (operation : Operation) (hworld : world.Exports P depth path ring)
    (hoperation : operation.Appends (Entry.ReadsUnder depth))
    (hkeyed : (world.step P target path operation).KeyIn P ring) :
    (world.step P target path operation).Exports P depth path ring where
  tracked := step_tracked P target path world operation hworld.tracked
    (hoperation.mono fun _ hentry => hentry.mono hdepth).withinLimit
  keyed := hkeyed
  exported := by
    have hself := hworld.exported
    unfold World.step
    split
    case h_1 key retired anchor fault hsession =>
      have hcut := openSingleInner_cut (P := P) target fault path world.file
        key retired anchor
      have hopened : Exported P depth ring ((openSingleInner P target fault path
          world.file key retired anchor).1.getD []) := by
        unfold Exported
        rw [hcut]
        exact hself
      split
      case h_1 heq =>
        rw [heq] at hopened
        exact hopened
      case h_2 heq =>
        rw [heq] at hopened
        exact hopened
    case h_2 => exact hself
    case h_3 => exact hself
    case h_4 session entry fault hsession =>
      obtain ⟨content, hfile, htracks⟩ := hworld.tracked session hsession
      rw [hfile, Option.getD_some] at hself ⊢
      have hadded := Exported.appended htracks
        (hworld.keyed session hsession) hself hoperation fault
      generalize session.ledger.append P path content entry fault = result
        at hadded ⊢
      obtain ⟨after, file, outcome⟩ := result
      cases outcome <;> exact hadded.1
    case h_5 session entries syncFault hsession =>
      obtain ⟨content, hfile, htracks⟩ := hworld.tracked session hsession
      rw [hfile, Option.getD_some] at hself ⊢
      exact Exported.appendAll hdepth htracks
        (hworld.keyed session hsession) hself hoperation syncFault
    case h_6 => exact hself
    case h_7 => exact hself
    case h_8 => exact hself

end Steps

/-- Such entries, under a key of the ring once it is done. -/
def Operation.AppendsTo (among : Entry → Prop) (target : Target)
    (path : String) (ring : List VerifyingKey) (world : World)
    (operation : Operation) : Prop :=
  operation.Appends among ∧
    (world.step P target path operation).KeyIn P ring

/-- Lines within the limit, under a key of the ring once it is done. -/
def Operation.ExportsTo (target : Target) (path : String)
    (ring : List VerifyingKey) (world : World) (operation : Operation) :
    Prop :=
  operation.AppendsTo P Entry.LineWithinLimit target path ring world

/-- A ledger that did not exist, after some operations. -/
theorem after_exports {among : Entry → Prop} {depth : ℕ} (hdepth : 1 ≤ depth)
    (hamong : ∀ entry, among entry → entry.ReadsUnder depth)
    {target : Target} {path : String} {ring : List VerifyingKey}
    {operations : List Operation}
    (hoperations : StateRun.Admitted (World.step P target path)
      (Operation.AppendsTo P among target path ring)
      { file := none, session := none } operations) :
    (World.after P target path none operations).Exports P depth path
      ring := by
  apply StateRun.run_preserves_admitted (World.step P target path) _ _
    hoperations
  · intro world operation hworld hadmitted
    exact step_exports hdepth target world operation hworld
      (hadmitted.1.mono hamong) hadmitted.2
  · refine ⟨?_, ?_, ?_⟩
    · rintro session hnone
      cases hnone
    · intro line hline
      cases hline
    · rintro session hnone
      cases hnone

/-! ## Earlier handles -/

/-- The lines an earlier handle counted come first, in the file and among the
lines a later handle counts. -/
def Session.Precedes (earlier : Session) (world : World) : Prop :=
  earlier.lines <+: (cut newline (world.file.getD [])).1 ∧
    ∀ session, world.session = some session →
      earlier.lines <+: session.lines

theorem step_precedes (target : Target) (path : String) {earlier : Session}
    (world : World) (operation : Operation)
    (hworld : earlier.Precedes world) :
    earlier.Precedes (world.step P target path operation) := by
  have hfrozen := LineText.cut_fst_mono newline
    (step_frozen P target path world operation)
  rw [LineText.cut_terminatedPrefix] at hfrozen
  have hfile := hworld.1.trans hfrozen
  refine ⟨hfile, ?_⟩
  revert hfile
  unfold World.step
  split
  case h_1 key retired anchor fault hsession =>
    split
    case h_1 =>
      intro _ session hnone
      cases hnone
    case h_2 =>
      rintro hfile _ ⟨⟩
      exact hfile
  case h_2 => exact fun _ => hworld.2
  case h_3 => exact fun _ => hworld.2
  case h_4 session entry fault hsession =>
    have hlines := hworld.2 session hsession
    split
    case h_1 =>
      rintro _ _ ⟨⟩
      exact hlines.trans (List.prefix_append _ _)
    case h_2 =>
      rintro _ _ ⟨⟩
      exact hlines.trans (List.prefix_append _ _)
  case h_5 session entries syncFault hsession =>
    rintro _ _ ⟨⟩
    exact (hworld.2 session hsession).trans (List.prefix_append _ _)
  case h_6 session newKey hsession =>
    rintro _ _ ⟨⟩
    exact hworld.2 session hsession
  case h_7 session sync hsession =>
    rintro _ _ ⟨⟩
    exact hworld.2 session hsession
  case h_8 =>
    intro _ session hnone
    cases hnone

theorem after_precedes (target : Target) {depth : ℕ} {path : String}
    {ring : List VerifyingKey} {world : World}
    (hworld : world.Exports P depth path ring) {earlier : Session}
    (hearlier : world.session = some earlier)
    (operations : List Operation) :
    earlier.Precedes
      (StateRun.run (World.step P target path) world operations) := by
  apply StateRun.run_preserves (World.step P target path)
    (fun world operation hprecedes _ =>
      step_precedes P target path world operation hprecedes)
  · obtain ⟨content, hfile, htracks⟩ := hworld.tracked earlier hearlier
    obtain ⟨left, hcontent, _⟩ := htracks.stopped
    constructor
    · rw [hfile, Option.getD_some, hcontent,
        LineText.cut_joined_append newline htracks.complete]
      exact List.prefix_append _ _
    · intro session hsession
      rw [hearlier] at hsession
      cases hsession
      exact List.prefix_refl _
  · exact fun _ _ => trivial

/-! ## The evidence of a file -/

/-- Where an open handle finds its records. -/
def World.location (path : String) (world : World) : Location :=
  .ok [⟨path, world.file.getD []⟩]

theorem map_decodeLine_recordLine (path : String)
    (records : List RecordOut) :
    (records.map (recordLine P)).map (decodeLine path) =
      (records.map (RecordOut.line P)).map Except.ok := by
  induction records with
  | nil => rfl
  | cons record rest ih =>
      simp only [List.map_cons, decodeLine_recordLine, ih]

section Sessions

variable {P} {depth : ℕ} {path : String} {ring : List VerifyingKey}
  {world : World} {session : Session}

/-- The lines a handle counts are those of records to export. -/
theorem World.Exports.records (hworld : world.Exports P depth path ring)
    (hsession : world.session = some session) :
    ∃ records, session.lines = records.map (recordLine P) ∧
      NamesKeysOf ring records ∧
      ∀ record ∈ records, record.entry.ReadsUnder depth := by
  obtain ⟨content, hfile, htracks⟩ := hworld.tracked session hsession
  obtain ⟨left, hcontent, _⟩ := htracks.stopped
  have hexported := hworld.exported
  rw [hfile, Option.getD_some, hcontent] at hexported
  apply exists_records
  intro line hline
  apply hexported
  rw [LineText.cut_joined_append newline htracks.complete]
  exact List.mem_append_left _ hline

/-- They verify up to the handle's head, and are found where they are
read. -/
theorem World.Exports.counted (hworld : world.Exports P depth path ring)
    (hsession : world.session = some session) {records : List RecordOut}
    (hlines : session.lines = records.map (recordLine P)) :
    (∃ keys state, keys ≠ [] ∧
        verifyState P keys none
          ((records.map (RecordOut.line P)).map Except.ok) = .ok state ∧
        state.prev = session.ledger.lastHash) ∧
      session.ledger.nextSeq = records.length ∧
      ∃ rest, (world.location path).Holds P records rest := by
  obtain ⟨content, hfile, htracks⟩ := hworld.tracked session hsession
  obtain ⟨left, hcontent, _⟩ := htracks.stopped
  obtain ⟨state, hstate, hcount, hprev, _⟩ := htracks.counts.state
  rw [hlines, map_decodeLine_recordLine] at hstate
  have hkeys := List.ne_nil_of_mem htracks.counts.own
  have hfinal := (verifyFrom_final P hkeys
    (Exportable.readRecords_lines records) hstate).1
  have hphysical : ∃ more, physicalLines content =
      records.map (recordLine P) ++ more := by
    rw [physicalLines, hcontent,
      LineText.cut_joined_append newline htracks.complete, hlines]
    split
    case isTrue => exact ⟨_, rfl⟩
    case isFalse => exact ⟨_, List.append_assoc _ _ _⟩
  obtain ⟨more, hmore⟩ := hphysical
  refine ⟨⟨_, state, hkeys, hstate, hprev⟩, ?_,
    untilUnread (more.map (decodeLine path)), [⟨path, content⟩], ?_, ?_⟩
  · rw [← hcount, hfinal, List.length_map]
    exact Nat.zero_add _
  · rw [World.location, hfile, Option.getD_some]
  · rw [chainedLines, chainedLinesBounded, eachLine]
    simp only [hmore]
    rw [List.map_append, map_decodeLine_recordLine, untilUnread_map_ok_append]

end Sessions

/-- A beginning of the lines is that of a beginning of the records. -/
theorem take_of_isPrefix {lines : List Bytes} {records : List RecordOut}
    (hbegins : lines <+: records.map (recordLine P)) :
    lines = (records.take lines.length).map (recordLine P) := by
  rw [List.map_take]
  exact List.prefix_iff_eq_take.mp hbegins

/-- A handle's snapshot is accepted under any ring with the keys used, also
against a tree head an earlier handle signed. -/
theorem single_evidence {target : Target} {path : String}
    {ring : List VerifyingKey} {earlier later : List Operation}
    (hoperations : StateRun.Admitted (World.step P target path)
      (Operation.ExportsTo P target path ring)
      { file := none, session := none } (earlier ++ later))
    {session : Session}
    (hsession : (World.after P target path none
      (earlier ++ later)).session = some session)
    (hfits : session.ledger.nextSeq < UInt64.size) (tsMs : UInt64) :
    ∃ snapshot, session.ledger.snapshotForBundle P
        ((World.after P target path none
          (earlier ++ later)).location path) tsMs = .ok snapshot ∧
      snapshot.Stands P id ring fun th => ∃ old,
        (World.after P target path none earlier).session = some old ∧
        old.ledger.Signs P ((World.after P target path none
          earlier).location path) th := by
  have hwithin : ∀ entry : Entry, entry.LineWithinLimit →
      entry.ReadsUnder 2 := fun _ hentry => hentry
  have hworld := after_exports P (by omega) hwithin hoperations
  obtain ⟨records, hlines, hnames, hdepth⟩ := hworld.records hsession
  obtain ⟨hverified, hcount, rest, hholds⟩ := hworld.counted hsession hlines
  have hexport : Exportable P 2 ring records session.ledger.lastHash :=
    ⟨hverified, hnames, hdepth⟩
  have hkey := hworld.keyed session hsession
  have hring := List.ne_nil_of_mem hkey
  rw [hcount] at hfits
  obtain ⟨values, hvalues⟩ := hexport.values hring hfits
  obtain ⟨leaves, hleaves⟩ := hexport.leaves hring hfits
  have haccepted := hexport.accepted hfits hkey hleaves tsMs
  refine ⟨_, hholds.snapshotForBundle hvalues hleaves hcount tsMs, ?_, ?_⟩
  · simpa [EvidenceSnapshot.Accepted, bundleOver] using
      haccepted none (fun _ hnone => by cases hnone)
  · rintro th ⟨old, hold, hsigns⟩ hpos
    obtain ⟨oldMs, hth⟩ := hsigns.treeHead
    obtain ⟨hbefore, _⟩ := (StateRun.admitted_append _).mp hoperations
    have hearlier := after_exports P (by omega) hwithin hbefore
    -- the earlier handle's records are the first of these
    have hbegins : old.lines <+: session.lines := by
      refine (after_precedes P target hearlier hold later).2 session ?_
      rw [World.after, StateRun.run_append] at hsession
      exact hsession
    rw [hlines] at hbegins
    have hlength : old.lines.length ≤ records.length := by
      simpa using hbegins.length_le
    obtain ⟨_, holdCount, oldRest, holdHolds⟩ :=
      hearlier.counted hold (take_of_isPrefix P hbegins)
    have holdLeaves := holdHolds.merkleLeaves
      (List.forall₂_take old.lines.length hvalues)
      (List.forall₂_take old.lines.length hleaves) holdCount
    unfold Ledger.treeHead at hth
    rw [holdLeaves] at hth
    cases hth
    have hpositive := Exportable.one_le_size hpos
    simpa [EvidenceSnapshot.Accepted, bundleOver] using haccepted _
      fun head hhead => ⟨old.ledger.key, old.lines.length, oldMs,
        hearlier.keyed old hold, hpositive, hlength,
        (Option.some.inj hhead).symm⟩

end Decern
