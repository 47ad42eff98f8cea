import Decern.FrozenPrefix
import Mathlib.Tactic

/-!
# A single file's prefix

The handle on a single file counts the records of the lines it has, whatever
they say, and every call only adds to the file.  A prefix taken between two
calls is read back while later calls write.
-/

namespace Decern

open ByteText (Bytes newline)
open LineText (cut joined)

variable (P : Platform)

/-! ## What a handle counts -/

/-- The file starts with the lines, which are texts, the handle's number of
them records; a live handle's file holds nothing else. -/
structure Ledger.Written (path : String) (ledger : Ledger)
    (lines : List Bytes) (content : Bytes) : Prop where
  complete : ∀ line ∈ lines, newline ∉ line
  numbered : ∃ texts : List String,
    lines.map (decodeLine path) = texts.map Except.ok ∧
      (texts.filter notBlank).length = ledger.nextSeq
  held : joined newline lines <+: content
  live : ledger.failed = false → content = joined newline lines

section Handles

variable {path : String} {ledger other after : Ledger} {lines : List Bytes}
  {content file : Bytes}

theorem Ledger.Written.congr (hwritten : ledger.Written path lines content)
    (hseq : other.nextSeq = ledger.nextSeq)
    (hfailed : other.failed = false → ledger.failed = false) :
    other.Written path lines content where
  complete := hwritten.complete
  numbered := by rw [hseq]; exact hwritten.numbered
  held := hwritten.held
  live := fun hlive => hwritten.live (hfailed hlive)

theorem Ledger.Written.stop (hwritten : ledger.Written path lines content)
    (more : Bytes) :
    ({ ledger with failed := true } : Ledger).Written path lines
      (content ++ more) where
  complete := hwritten.complete
  numbered := hwritten.numbered
  held := hwritten.held.trans (List.prefix_append _ _)
  live := fun hlive => by cases hlive

theorem Ledger.Written.advance (hwritten : ledger.Written path lines content)
    (hlive : ledger.failed = false) (entry : Entry) :
    (ledger.advance P entry).Written path
      (lines ++ [recordLine P (ledger.sealNext P entry)])
      (content ++ (recordLine P (ledger.sealNext P entry) ++ [newline])) where
  complete := by
    intro line hline
    rcases List.mem_append.mp hline with hbefore | hlast
    · exact hwritten.complete line hbefore
    · rw [List.mem_singleton.mp hlast]
      exact newline_notMem_recordLine P _
  numbered := by
    rcases hwritten.numbered with ⟨texts, htexts, hcount⟩
    have hrecord : notBlank ((ledger.sealNext P entry).line P) = true := by
      simp [notBlank, line_not_blank]
    refine ⟨texts ++ [(ledger.sealNext P entry).line P], ?_, ?_⟩
    · rw [List.map_append, List.map_append, htexts, List.map_singleton,
        decodeLine_recordLine, List.map_singleton]
    · rw [List.filter_append, List.length_append, hcount,
        List.filter_singleton, hrecord]
      rfl
  held := by
    rw [hwritten.live hlive, LineText.joined_append]
    simp [joined]
  live := fun _ => by
    rw [hwritten.live hlive, LineText.joined_append]
    simp [joined]

theorem Ledger.Written.append {entry : Entry} {fault : Option WriteFault}
    {answer : Except LedgerError RecordOut}
    (hwritten : ledger.Written path lines content)
    (happend : ledger.append P path content entry fault =
      (after, file, answer)) :
    after.Written path
      (lines ++ answer.toOption.toList.map (recordLine P)) file := by
  rcases ledger.append_cases P path content entry fault with
    ⟨_, hresult⟩ | ⟨hlive, hresult⟩ | ⟨hlive, written, err, hresult⟩
  · rw [hresult] at happend
    cases happend
    simpa [Except.toOption] using hwritten
  · rw [hresult] at happend
    cases happend
    exact hwritten.advance P hlive entry
  · rw [hresult] at happend
    cases happend
    simpa [Except.toOption] using hwritten.stop
      ((recordLine P (ledger.sealNext P entry) ++ [newline]).take written)

/-- The file while a batch is written. -/
def Ledger.eachMoments (path : String) (ledger : Ledger) (file : Bytes) :
    List (Entry × Option WriteFault) → List Bytes
  | [] => []
  | (entry, fault) :: rest =>
      ledger.moments P file entry fault ++
        match ledger.append P path file entry fault with
        | (_, _, .error _) => []
        | (ledger, file, .ok _) => Ledger.eachMoments path ledger file rest

theorem Ledger.Written.each {items : List (Entry × Option WriteFault)}
    {records found : List RecordOut} {outcome : Except LedgerError Unit}
    (hwritten : ledger.Written path lines content)
    (heach : Ledger.appendEach P path ledger content records items =
      (after, file, found, outcome)) :
    FileGrows content (Ledger.eachMoments P path ledger content items) file ∧
      ∃ more, found = records ++ more ∧
        after.Written path (lines ++ more.map (recordLine P)) file := by
  induction items generalizing ledger lines content records with
  | nil =>
      cases heach
      exact ⟨.done _, [], by simp, by simpa using hwritten⟩
  | cons item rest ih =>
      rcases item with ⟨entry, fault⟩
      unfold Ledger.appendEach at heach
      unfold Ledger.eachMoments
      have hmoments := ledger.moments_grow P path content entry fault
      rcases happend : ledger.append P path content entry fault with
        ⟨next, longer, answer⟩
      rw [happend] at heach hmoments
      have hnext := hwritten.append P happend
      cases answer with
      | error error =>
          cases heach
          simp only [List.append_nil]
          exact ⟨hmoments, [], by simp, by simpa [Except.toOption] using hnext⟩
      | ok record =>
          rcases ih hnext heach with ⟨hrest, more, rfl, hlast⟩
          refine ⟨hmoments.append hrest, record :: more, by simp, ?_⟩
          simpa [Except.toOption] using hlast

theorem Ledger.Written.all {items : List (Entry × Option WriteFault)}
    {syncFault : Option String} {records : List RecordOut}
    {outcome : Except LedgerError Unit}
    (hwritten : ledger.Written path lines content)
    (hall : ledger.appendAll P path content items syncFault =
      (after, file, records, outcome)) :
    FileGrows content (Ledger.eachMoments P path
        { ledger with sync := false } content items) file ∧
      after.Written path (lines ++ records.map (recordLine P)) file := by
  have hunsynced : ({ ledger with sync := false } : Ledger).Written path lines
      content := hwritten.congr rfl id
  unfold Ledger.appendAll at hall
  rcases heach : Ledger.appendEach P path { ledger with sync := false } content
    [] items with ⟨last, longer, found, answer⟩
  rcases hunsynced.each P heach with ⟨hmoments, more, hmore, hlast⟩
  rw [List.nil_append] at hmore
  subst hmore
  rw [heach] at hall
  simp only at hall
  have hsynced : ({ last with sync := ledger.sync } : Ledger).Written path
      (lines ++ found.map (recordLine P)) longer := hlast.congr rfl id
  split_ifs at hall
  · cases syncFault with
    | none =>
        cases hall
        exact ⟨hmoments, hsynced⟩
    | some err =>
        cases hall
        have hstopped := hsynced.stop []
        rw [List.append_nil] at hstopped
        exact ⟨hmoments, hstopped⟩
  · cases hall
    exact ⟨hmoments, hsynced⟩

end Handles

/-! ## Runs -/

/-- The file while an operation of the open handle runs. -/
def World.moments (path : String) (world : World) (operation : Operation) :
    List Bytes :=
  match world.session, operation with
  | some session, .append entry fault =>
      session.ledger.moments P (world.file.getD []) entry fault
  | some session, .appendAll entries _ =>
      Ledger.eachMoments P path { session.ledger with sync := false }
        (world.file.getD []) entries
  | _, _ => []

/-- The file while several operations run. -/
def World.history (target : Target) (path : String) (world : World) :
    List Operation → List Bytes
  | [] => []
  | operation :: rest =>
      world.moments P path operation ++
        World.history target path (world.step P target path operation) rest

def World.Written (path : String) (world : World) : Prop :=
  ∀ session, world.session = some session →
    session.ledger.Written path session.lines (world.file.getD [])

section Runs

variable {target : Target} {path : String} {world : World}

theorem openSingleInner_counts {fault : Option OpenFault}
    {file left : Option Bytes} {key : SigningKey}
    {retired : List VerifyingKey} {anchor : Option (Option Bytes)}
    {ledger : Ledger}
    (hok : openSingleInner P target fault path file key retired anchor =
      (left, .ok ledger)) :
    ledger.Written path (cut newline (left.getD [])).1 (left.getD []) := by
  rcases openSingleInner_tracks P hok with ⟨content, rfl, _, htracks⟩
  rcases htracks.stopped with ⟨left, hleft, _⟩
  exact ⟨htracks.complete, htracks.counts.texts, ⟨left, hleft.symm⟩,
    htracks.live⟩

theorem World.step_written (operation : Operation)
    (hworld : world.Written path) :
    (world.step P target path operation).Written path := by
  unfold World.step
  split
  case h_1 key retired anchor fault hsession =>
    split
    case h_1 => exact fun session hnone => by cases hnone
    case h_2 file ledger hopen =>
      intro session hsome
      cases hsome
      exact openSingleInner_counts P hopen
  case h_2 => exact hworld
  case h_3 => exact hworld
  case h_4 session entry fault hsession =>
    rcases happend : session.ledger.append P path (world.file.getD []) entry
      fault with ⟨after, file, outcome⟩
    have hafter := (hworld session hsession).append P happend
    cases outcome with
    | error error =>
        intro other hother
        cases hother
        exact hafter
    | ok record =>
        intro other hother
        cases hother
        exact hafter
  case h_5 session entries syncFault hsession =>
    rcases hall : session.ledger.appendAll P path (world.file.getD []) entries
      syncFault with ⟨after, file, records, outcome⟩
    have hafter := ((hworld session hsession).all P hall).2
    intro other hother
    cases hother
    exact hafter
  case h_6 session newKey hsession =>
    intro other hother
    cases hother
    apply (hworld session hsession).congr
    · unfold Ledger.rotate
      simp only
      split <;> rfl
    · unfold Ledger.rotate
      simp only
      split <;> exact id
  case h_7 session sync hsession =>
    intro other hother
    cases hother
    exact (hworld session hsession).congr rfl id
  case h_8 => exact fun session hnone => by cases hnone

theorem World.after_written (target : Target) (path : String)
    (file : Option Bytes) (operations : List Operation) :
    (World.after P target path file operations).Written path := by
  refine StateRun.run_preserves (World.step P target path)
    (fun world operation hworld _ => World.step_written P operation hworld) ?_
    fun _ _ => trivial
  exact fun session hnone => by cases hnone

/-- What the open handle's operations may be: it stays open. -/
def Operation.Keeps : Operation → Prop
  | .close => False
  | _ => True

variable (target) in
/-- An operation of an open handle only adds to the file. -/
theorem World.step_grows {session : Session} (operation : Operation)
    (hkeeps : operation.Keeps) (hworld : world.Written path)
    (hsession : world.session = some session) :
    FileGrows (world.file.getD []) (world.moments P path operation)
        ((world.step P target path operation).file.getD []) ∧
      ∃ next, (world.step P target path operation).session = some next := by
  rcases world with ⟨file, found⟩
  simp only at hsession
  subst hsession
  cases operation with
  | «open» key retired anchor fault => exact ⟨.done _, session, rfl⟩
  | append entry fault =>
      have hmoments := session.ledger.moments_grow P path (file.getD []) entry
        fault
      simp only [World.step, World.moments]
      rcases happend : session.ledger.append P path (file.getD []) entry fault
        with ⟨after, longer, outcome⟩
      rw [happend] at hmoments
      cases outcome with
      | error error => exact ⟨hmoments, _, rfl⟩
      | ok record => exact ⟨hmoments, _, rfl⟩
  | appendAll entries syncFault =>
      simp only [World.step, World.moments]
      rcases hall : session.ledger.appendAll P path (file.getD []) entries
        syncFault with ⟨after, longer, records, outcome⟩
      exact ⟨((hworld session rfl).all P hall).1, _, rfl⟩
  | rotate newKey => exact ⟨.done _, _, rfl⟩
  | setSync sync => exact ⟨.done _, _, rfl⟩
  | close => cases hkeeps

variable (target) in
theorem World.history_grows {session : Session} {operations : List Operation}
    (hkeeps : ∀ operation ∈ operations, operation.Keeps)
    (hworld : world.Written path) (hsession : world.session = some session) :
    FileGrows (world.file.getD []) (world.history P target path operations)
        ((StateRun.run (World.step P target path) world
          operations).file.getD []) ∧
      ∃ next, (StateRun.run (World.step P target path) world
        operations).session = some next := by
  induction operations generalizing world session with
  | nil => exact ⟨.done _, session, hsession⟩
  | cons operation rest ih =>
      rcases World.step_grows P target operation (hkeeps operation (by simp))
        hworld hsession with ⟨hmoments, next, hnext⟩
      rcases ih (fun other hother => hkeeps other (by simp [hother]))
        (World.step_written P operation hworld) hnext with ⟨hrest, last, hlast⟩
      exact ⟨hmoments.append hrest, last, hlast⟩

end Runs

/-- `Ledger::prefix` of a single-file ledger. -/
def Ledger.takePrefix (ledger : Ledger) (path : String) : Prefix where
  location := .single path
  count := ledger.nextSeq

/-- A single file's prefix is what was there when it was taken. -/
theorem single_prefix_frozen {path : String} {world : World}
    {session : Session} {operations : List Operation} {target : Target}
    {reads : PrefixReads} {listed measured : ℕ}
    (hworld : world.Written path) (hsession : world.session = some session)
    (hkeeps : ∀ operation ∈ operations, operation.Keeps)
    (hdrawn : reads.Drawn ((world.file.getD [] ::
      world.history P target path operations).map (Directory.alone path))
        listed measured) :
    (session.ledger.takePrefix path).Gives path session.lines reads := by
  have hwritten := hworld session hsession
  rcases hwritten.numbered with ⟨texts, htexts, hcount⟩
  have hgrows := (World.history_grows P target hkeeps hworld hsession).1
  have hfrozen := single_lines_frozen hgrows hwritten.held
    hwritten.complete htexts hdrawn
  rw [hcount] at hfrozen
  exact ⟨texts, htexts, hcount, hfrozen⟩

/-! ## The law -/

/-- A prefix of a live handle gives the records stored when it was taken,
whatever the handle writes while it is read. -/
theorem prefix_frozen :
    (∀ (target : Target) (path : String) (file : Option Bytes)
      (operations later : List Operation) (content : Bytes)
      (session : Session) (reads : PrefixReads) (listed measured : ℕ),
      World.after P target path file operations =
        { file := some content, session := some session } →
      session.ledger.failed = false →
      (∀ operation ∈ later, operation.Keeps) →
      reads.Drawn ((content :: World.history P target path
        { file := some content, session := some session } later).map
          (Directory.alone path)) listed measured →
        (session.ledger.takePrefix path).Gives path (cut newline content).1
          reads) ∧
    ∀ (files : List (String × Bytes)) (events : List SegmentEvent)
      (calls : List SegmentCall) (dir : Directory) (handle : SegmentedLedger)
      (reads : PrefixReads) (listed measured : ℕ),
      SegmentStore.after P files events =
        { directory := dir, handle := some handle } →
      handle.ledger.failed = false →
      reads.Drawn (dir :: SegmentCall.history P dir handle calls) listed
        measured →
        handle.takePrefix.Gives "" dir.lines reads := by
  constructor
  · intro target path file operations later content session reads listed
      measured hafter hlive hkeeps hdrawn
    have hworld := World.after_written P target path file operations
    rw [hafter] at hworld
    have hwritten := hworld session rfl
    have hlines := hwritten.live hlive
    simp only [Option.getD_some] at hlines
    have hgives := single_prefix_frozen P hworld rfl hkeeps hdrawn
    rwa [hlines, LineText.cut_joined newline hwritten.complete]
  · intro files events calls dir handle reads listed measured hafter hlive
      hdrawn
    have hsound := SegmentStore.after_sound P files events
    rw [hafter] at hsound
    exact segmented_prefix_frozen P (hsound.2 handle rfl) hlive hdrawn

/-! Reads that look for the file when the prefix is taken, and read it when
all is written. -/

section Alone

variable {target : Target} {path : String} {content last : Bytes}
  {session : Session}

theorem World.file_append (hopen : session.ledger.failed = false)
    (entry : Entry) :
    (StateRun.run (World.step P target path)
      { file := some content, session := some session }
      [.append entry none]).file =
        some (content ++ (recordLine P (session.ledger.sealNext P entry) ++
          [newline])) := by
  simp [StateRun.run, World.step, Ledger.append, Ledger.writeLine, hopen,
    Session.appended]

theorem World.file_torn (hopen : session.ledger.failed = false)
    (entry : Entry) (written : ℕ) (err : String) :
    (StateRun.run (World.step P target path)
      { file := some content, session := some session }
      [.append entry (some (.torn written err))]).file =
        some (content ++ (recordLine P (session.ledger.sealNext P entry) ++
          [newline]).take written) := by
  simp [StateRun.run, World.step, Ledger.append, Ledger.writeLine, hopen,
    Session.appended]

variable (target) in
theorem World.drawn_alone {operations : List Operation}
    (hkeeps : ∀ operation ∈ operations, operation.Keeps)
    (hworld : World.Written path
      { file := some content, session := some session })
    (hlast : (StateRun.run (World.step P target path)
      { file := some content, session := some session }
      operations).file = some last) :
    ∃ measured, (PrefixReads.found (.alone path content)
        (.alone path last)).Drawn
      ((content :: World.history P target path
        { file := some content, session := some session } operations).map
          (.alone path)) 0 measured := by
  have hgrows := (World.history_grows P target hkeeps hworld rfl).1
  rw [hlast] at hgrows
  have hfound := congrArg (Option.map (Directory.alone path))
    hgrows.found_last
  rw [← List.getElem?_map] at hfound
  exact ⟨_, PrefixReads.drawn_found rfl hfound (Nat.zero_le _)⟩

theorem World.gives_alone {operations : List Operation}
    (hkeeps : ∀ operation ∈ operations, operation.Keeps)
    (hworld : World.Written path
      { file := some content, session := some session })
    {reads : PrefixReads} {listed measured : ℕ}
    (hdrawn : reads.Drawn ((content :: World.history P target path
      { file := some content, session := some session } operations).map
        (.alone path)) listed measured) :
    (session.ledger.takePrefix path).Gives path session.lines reads :=
  single_prefix_frozen P hworld rfl hkeeps hdrawn

end Alone

/-- A ledger of one record. -/
def writtenWorld : World :=
  World.after samplePlatform .unix "ledger" none
    [.open (sampleKey 1) [] none none, .append (sampleEntry .null) none]

def writtenFile : Bytes := writtenWorld.file.get rfl

def writtenSession : Session := writtenWorld.session.get rfl

theorem writtenWorld_eq :
    writtenWorld =
      { file := some writtenFile, session := some writtenSession } :=
  congrArg₂ World.mk (Option.some_get _).symm (Option.some_get _).symm

/-- Its next record is torn by the disk. -/
def sampleTorn : List Operation :=
  [.append (sampleEntry .null) (some (.torn 40 "disk full"))]

/-- The file after that. -/
def sampleTail : Bytes :=
  writtenFile ++ (recordLine samplePlatform
    (writtenSession.ledger.sealNext samplePlatform (sampleEntry .null)) ++
      [newline]).take 40

/-- A segmented ledger with one record, that rolls over at its next. -/
def sampleStore : SegmentStore :=
  SegmentStore.after samplePlatform []
    [.opens (sampleKey 1) [] { maxBytes := none, epochMs := some 10 } none none
        none,
      .calls (.append ⟨{ sampleEntry .null with tsMs := 5 }, none, none⟩)]

def sampleHandle : SegmentedLedger :=
  sampleStore.handle.get rfl

theorem sampleStore_eq :
    sampleStore =
      { directory := sampleStore.directory, handle := some sampleHandle } :=
  congrArg (SegmentStore.mk sampleStore.directory) (Option.some_get _).symm

def sampleCalls : List SegmentCall :=
  [.append ⟨{ sampleEntry .null with tsMs := 25 }, none, none⟩]

/-- The directory after its next append. -/
def sampleAfter : Directory :=
  (SegmentCall.runAll samplePlatform sampleStore.directory sampleHandle
    sampleCalls).1

/-- A prefix of one record gives it, among others. -/
theorem Prefix.Gives.one {taken : Prefix} {path : String}
    {stored : List Bytes} {reads : PrefixReads}
    (hgives : taken.Gives path stored reads) (hone : taken.count = 1) :
    ∃ (text : String) (bound : ℕ), ∀ turns, bound ≤ turns →
      taken.lines turns reads = some (.ok [text]) := by
  rcases hgives with ⟨texts, _, hcount, bound, hbound⟩
  rcases List.length_eq_one_iff.mp (hcount.trans hone) with ⟨text, htext⟩
  rw [htext] at hbound
  exact ⟨text, bound, hbound⟩

theorem prefix_frozen_sample :
    (∃ (text : String) (bound : ℕ), ∀ turns, bound ≤ turns →
      (writtenSession.ledger.takePrefix "ledger").lines turns
          (.found (.alone "ledger" writtenFile)
            (.alone "ledger" sampleTail)) =
        some (.ok [text])) ∧
    ∃ (text : String) (bound : ℕ), ∀ turns, bound ≤ turns →
      sampleHandle.takePrefix.lines turns
          (.found sampleStore.directory sampleAfter) =
        some (.ok [text]) := by
  rcases prefix_frozen samplePlatform with ⟨hsingle, hsegmented⟩
  refine ⟨?_, ?_⟩
  · have hkeeps : ∀ operation ∈ sampleTorn, operation.Keeps := by
      intro operation hoperation
      rw [List.mem_singleton.mp hoperation]
      trivial
    have hwritten := World.after_written samplePlatform .unix "ledger" none
      [.open (sampleKey 1) [] none none, .append (sampleEntry .null) none]
    rw [← writtenWorld, writtenWorld_eq] at hwritten
    rcases World.drawn_alone samplePlatform .unix hkeeps hwritten
      (World.file_torn samplePlatform rfl _ _ _) with ⟨measured, hdrawn⟩
    exact (hsingle .unix "ledger" none _ sampleTorn writtenFile writtenSession
      _ 0 measured writtenWorld_eq rfl hkeeps hdrawn).one rfl
  · have hattached := (SegmentStore.after_sound samplePlatform [] _).2
      sampleHandle (Option.some_get _).symm
    have hgrows := (hattached.calls samplePlatform sampleCalls).1
    exact (hsegmented [] _ sampleCalls sampleStore.directory sampleHandle _ 0
      _ sampleStore_eq rfl (PrefixReads.drawn_found rfl hgrows.found_last
        (Nat.zero_le _))).one rfl

end Decern
