import Decern.SegmentRefinement
import Decern.WriteSteps
import Mathlib.Tactic

/-!
# A segmented ledger's directory over its life

A directory is opened, written by the handle that opened it and given up, any
number of times and however the calls fail.  A live handle is always attached
to it.
-/

namespace Decern

open ByteText (Bytes newline)
open LineText (cut joined terminatedPrefix)

variable (P : Platform)

/-! ## Calls -/

/-- One entry of a batch, and how its append fails. -/
structure BatchItem where
  entry : Entry
  fault : Option SegmentFault
  writeFault : Option WriteFault

namespace SegmentedLedger

/-- The loop of `append_all`, wherever an append fails. -/
def appendItems (dir : Directory) (handle : SegmentedLedger) :
    List BatchItem → Directory × SegmentedLedger × Except LedgerError Unit
  | [] => (dir, handle, .ok ())
  | item :: rest =>
      match handle.append P item.fault item.writeFault dir item.entry with
      | (dir, handle, .error error) => (dir, handle, .error error)
      | (dir, handle, .ok _) => appendItems dir handle rest

def itemsMoments (dir : Directory) (handle : SegmentedLedger) :
    List BatchItem → List Directory
  | [] => []
  | item :: rest =>
      handle.moments P item.fault item.writeFault dir item.entry ++
        match handle.append P item.fault item.writeFault dir item.entry with
        | (_, _, .error _) => []
        | (dir, handle, .ok _) => itemsMoments dir handle rest

/-- `append_all`, synced once at its end when sync is on. -/
def appendBatch (dir : Directory) (handle : SegmentedLedger)
    (items : List BatchItem) (syncFault : Option String) :
    Directory × SegmentedLedger × Except LedgerError Unit :=
  match (handle.setSync false).appendItems P dir items with
  | (dir, last, outcome) =>
      let last := last.setSync handle.ledger.sync
      if handle.ledger.sync then
        match syncFault with
        | some err => (dir, last.fail, .error (.io last.activeFile err))
        | none => (dir, last, outcome)
      else (dir, last, outcome)

def rotate (handle : SegmentedLedger) (newKey : SigningKey) :
    SegmentedLedger :=
  { handle with ledger := (handle.ledger.rotate P newKey).1 }

end SegmentedLedger

/-- Without faults a batch is the plain one. -/
theorem appendItems_none (dir : Directory) (handle : SegmentedLedger)
    (entries : List Entry) :
    handle.appendItems P dir (entries.map fun entry => ⟨entry, none, none⟩) =
      handle.appendEach P dir entries := by
  induction entries generalizing dir handle with
  | nil => rfl
  | cons entry rest ih =>
      rw [List.map_cons]
      unfold SegmentedLedger.appendItems SegmentedLedger.appendEach
      rcases handle.append P none none dir entry with ⟨after, next, outcome⟩
      cases outcome with
      | error error => rfl
      | ok record => exact ih after next

theorem appendBatch_none (dir : Directory) (handle : SegmentedLedger)
    (entries : List Entry) :
    handle.appendBatch P dir (entries.map fun entry => ⟨entry, none, none⟩)
        none =
      handle.appendAll P dir entries := by
  unfold SegmentedLedger.appendBatch SegmentedLedger.appendAll
  rw [appendItems_none]
  split_ifs <;> rfl

/-- What an owner calls on an open handle. -/
inductive SegmentCall where
  | append (item : BatchItem)
  | appendAll (items : List BatchItem) (syncFault : Option String)
  | rotate (newKey : SigningKey)
  | setSync (sync : Bool)

namespace SegmentCall

def run (dir : Directory) (handle : SegmentedLedger) :
    SegmentCall → Directory × SegmentedLedger
  | .append item =>
      match handle.append P item.fault item.writeFault dir item.entry with
      | (dir, handle, _) => (dir, handle)
  | .appendAll items syncFault =>
      match handle.appendBatch P dir items syncFault with
      | (dir, handle, _) => (dir, handle)
  | .rotate newKey => (dir, handle.rotate P newKey)
  | .setSync sync => (dir, handle.setSync sync)

/-- The directories a call leaves on its way. -/
def moments (dir : Directory) (handle : SegmentedLedger) :
    SegmentCall → List Directory
  | .append item =>
      handle.moments P item.fault item.writeFault dir item.entry
  | .appendAll items _ => (handle.setSync false).itemsMoments P dir items
  | .rotate _ => []
  | .setSync _ => []

/-- The directories several calls leave on their way, in order. -/
def history (dir : Directory) (handle : SegmentedLedger) :
    List SegmentCall → List Directory
  | [] => []
  | call :: rest =>
      call.moments P dir handle ++
        history (call.run P dir handle).1 (call.run P dir handle).2 rest

/-- Where several calls end. -/
def runAll (dir : Directory) (handle : SegmentedLedger) :
    List SegmentCall → Directory × SegmentedLedger
  | [] => (dir, handle)
  | call :: rest =>
      runAll (call.run P dir handle).1 (call.run P dir handle).2 rest

end SegmentCall

section Calls

variable {dir after : Directory} {handle next : SegmentedLedger}

/-- Only the head, the number and the failed flag of a ledger matter to a
directory. -/
theorem Attached.congr (hattached : Attached P dir handle) {ledger : Ledger}
    (hseq : ledger.nextSeq = handle.ledger.nextSeq)
    (hfailed : ledger.failed = false → handle.ledger.failed = false)
    (hheads : ∀ lines, handle.ledger.Heads P "" lines →
      ledger.Heads P "" lines) :
    Attached P dir { handle with ledger } := by
  rcases hattached with ⟨manifest, done, active, blocks, content, hlayout,
    hhandle⟩
  refine ⟨manifest, done, active, blocks, content, hlayout, fun hlive => ?_⟩
  rcases hhandle (hfailed hlive) with ⟨hagrees, hcomplete, hnumbered, hover⟩
  exact ⟨hagrees, hcomplete, by rw [hseq]; exact hnumbered, hheads _ hover⟩

theorem Attached.setSync (hattached : Attached P dir handle) (sync : Bool) :
    Attached P dir (handle.setSync sync) :=
  hattached.congr P rfl id fun _ hheads => hheads.setSync sync

theorem Attached.rotate (hattached : Attached P dir handle)
    (newKey : SigningKey) : Attached P dir (handle.rotate P newKey) := by
  refine hattached.congr P ?_ ?_ fun _ hheads => hheads.rotate newKey
  · unfold Ledger.rotate
    simp only
    split <;> rfl
  · unfold Ledger.rotate
    simp only
    split <;> exact id

theorem Attached.items {items : List BatchItem}
    {outcome : Except LedgerError Unit} (hattached : Attached P dir handle)
    (hitems : handle.appendItems P dir items = (after, next, outcome)) :
    DirectoryGrows dir (handle.itemsMoments P dir items) after ∧
      Attached P after next := by
  induction items generalizing dir handle with
  | nil =>
      cases hitems
      exact ⟨.done _, hattached⟩
  | cons item rest ih =>
      unfold SegmentedLedger.appendItems at hitems
      unfold SegmentedLedger.itemsMoments
      rcases happend : handle.append P item.fault item.writeFault dir
        item.entry with ⟨mid, there, answer⟩
      rcases hattached.append P happend with ⟨hmoments, hthere⟩
      rw [happend] at hitems
      cases answer with
      | error error =>
          cases hitems
          simp only [List.append_nil]
          exact ⟨hmoments, hthere⟩
      | ok record =>
          rcases ih hthere hitems with ⟨hrest, hlast⟩
          exact ⟨hmoments.append hrest, hlast⟩

theorem Attached.call (hattached : Attached P dir handle) (call : SegmentCall) :
    DirectoryGrows dir (call.moments P dir handle)
        (call.run P dir handle).1 ∧
      Attached P (call.run P dir handle).1 (call.run P dir handle).2 := by
  cases call with
  | append item =>
      rcases happend : handle.append P item.fault item.writeFault dir
        item.entry with ⟨after, next, answer⟩
      have hnext := hattached.append P happend
      simp only [SegmentCall.run, SegmentCall.moments, happend]
      exact hnext
  | appendAll items syncFault =>
      rcases hitems : (handle.setSync false).appendItems P dir items with
        ⟨after, last, outcome⟩
      have hunsynced := hattached.setSync P false
      rcases hunsynced.items P hitems with ⟨hmoments, hlast⟩
      have hsynced := hlast.setSync P handle.ledger.sync
      simp only [SegmentCall.run, SegmentCall.moments,
        SegmentedLedger.appendBatch, hitems]
      split_ifs
      · cases syncFault with
        | none => exact ⟨hmoments, hsynced⟩
        | some err => exact ⟨hmoments, hsynced.fail P⟩
      · exact ⟨hmoments, hsynced⟩
  | rotate newKey => exact ⟨.done _, hattached.rotate P newKey⟩
  | setSync sync => exact ⟨.done _, hattached.setSync P sync⟩

/-- However many calls: the directory only gains, and the handle stays
attached. -/
theorem Attached.calls (hattached : Attached P dir handle)
    (calls : List SegmentCall) :
    DirectoryGrows dir (SegmentCall.history P dir handle calls)
        (SegmentCall.runAll P dir handle calls).1 ∧
      Attached P (SegmentCall.runAll P dir handle calls).1
        (SegmentCall.runAll P dir handle calls).2 := by
  induction calls generalizing dir handle with
  | nil => exact ⟨.done _, hattached⟩
  | cons call rest ih =>
      rcases hattached.call P call with ⟨hmoments, hnext⟩
      rcases ih hnext with ⟨hrest, hlast⟩
      exact ⟨hmoments.append hrest, hlast⟩

end Calls

/-! ## Opening -/

/-- A directory no ledger was started in, or a laid out one. -/
def Directory.Usable (dir : Directory) : Prop :=
  dir.manifest = none ∨ ∃ region, dir.Lists region

theorem ok_of_toOption {α β : Type*} {items : List (Except α β)}
    {values : List β}
    (hvalues : items.map Except.toOption = values.map some) :
    items = values.map Except.ok := by
  induction items generalizing values with
  | nil =>
      cases values with
      | nil => rfl
      | cons value values => simp at hvalues
  | cons item items ih =>
      cases values with
      | nil => simp at hvalues
      | cons value values =>
          rw [List.map_cons, List.map_cons, List.cons.injEq] at hvalues
          rw [List.map_cons, ih hvalues.2]
          cases item with
          | error error => cases hvalues.1
          | ok found =>
              have hsame : found = value := Option.some.inj hvalues.1
              rw [hsame]

theorem toOption_decodeLine (path : String) (line : Bytes) :
    (decodeLine path line).toOption = (decodeLine "" line).toOption := by
  unfold decodeLine
  cases ByteText.decode (stripReturn line) <;> rfl

/-- Which file a line is in matters to its failure only. -/
theorem regionLines_texts {region : Region} {texts : List String} :
    regionLines region = texts.map Except.ok ↔
      (region.flatMap Prod.snd).map (decodeLine "") =
        texts.map Except.ok := by
  have hsame : (regionLines region).map Except.toOption =
      ((region.flatMap Prod.snd).map (decodeLine "")).map Except.toOption := by
    unfold regionLines
    simp only [List.map_flatMap, List.map_map, Function.comp_def,
      toOption_decodeLine]
  have hsome : (texts.map (Except.ok (ε := LedgerError))).map Except.toOption =
      texts.map some := by
    rw [List.map_map]
    rfl
  constructor
  · intro htexts
    apply ok_of_toOption
    rw [← hsame, htexts, hsome]
  · intro htexts
    apply ok_of_toOption
    rw [hsame, htexts, hsome]

theorem layoutRegion_lines (blocks : List SealedFile) (active : SegmentMeta)
    (content : Bytes) :
    (layoutRegion blocks active content).flatMap Prod.snd =
      sealedLines blocks ++ (cut newline content).1 := by
  simp [layoutRegion, sealedLines, List.flatMap_map]

variable {P} in
/-- A head that counts some lines counts records that are texts. -/
theorem Ledger.Counts.texts {path : String} {ledger : Ledger}
    {lines : List Bytes} (hcounts : ledger.Counts P path lines) :
    ∃ texts : List String, lines.map (decodeLine path) = texts.map Except.ok ∧
      (texts.filter notBlank).length = ledger.nextSeq := by
  rcases hcounts.state with ⟨state, hstate, hcount, _⟩
  rcases exists_texts_of_verifyFrom hstate with ⟨texts, htexts⟩
  have hlength := (count_of_verifyFrom (htexts ▸ hstate)).1
  refine ⟨texts, htexts, ?_⟩
  rw [← hcount, hlength]
  simp

section Opening

variable {dir after : Directory} {manifest : Manifest}
  {done : List SegmentMeta} {active : SegmentMeta}
  {blocks : List SealedFile} {content : Bytes}
  {fault : Option SegmentFault} {openFault : Option OpenFault}
  {key : SigningKey} {retired : List VerifyingKey} {policy : RolloverPolicy}
  {anchor : Option (Option Bytes)}
  {result : Except LedgerError SegmentedLedger}

theorem openManifest_attached
    (hlayout : Layout dir manifest done active blocks content)
    (hopen : openManifest P openFault dir manifest key
      (keyring P key retired) policy anchor = (after, result)) :
    after.Usable ∧ ∀ handle, result = .ok handle → Attached P after handle := by
  rcases openManifest_layout P hlayout hopen with ⟨left, _, hafter, hok⟩
  refine ⟨Or.inr ⟨_, hafter.lists⟩, fun handle hhandle => ?_⟩
  rcases hok handle hhandle with ⟨rfl, hmanifest, hfile, _, hcounts⟩
  refine ⟨_, _, _, _, _, hafter,
    fun _ => ⟨⟨hfile, active.openedMs, ?_⟩, ?_, ?_, ?_⟩⟩
  · rw [hmanifest]
    exact hafter.segments
  · rw [LineText.cut_terminatedPrefix]
    rfl
  · rcases hcounts.texts with ⟨texts, htexts, hcount⟩
    refine ⟨texts, regionLines_texts.mpr ?_, hcount⟩
    rw [layoutRegion_lines, LineText.cut_terminatedPrefix]
    exact htexts
  · rw [LineText.cut_terminatedPrefix]
    exact Or.inl hcounts

/-- Any open leaves a usable directory, and a handle attached to it. -/
theorem openSegmentedInner_attached (hdir : dir.Usable)
    (hopen : openSegmentedInner P fault openFault dir key retired policy
      anchor = (after, result)) :
    after.Usable ∧ ∀ handle, result = .ok handle → Attached P after handle := by
  unfold openSegmentedInner manifestToOpen at hopen
  cases hcreate : SegmentFault.at fault .createDir with
  | some err =>
      rw [hcreate] at hopen
      cases hopen
      exact ⟨hdir, fun handle hok => by cases hok⟩
  | none =>
      rw [hcreate] at hopen
      simp only at hopen
      rcases loadManifest_fault fault dir with ⟨error, herror⟩ | hsame
      · rw [herror] at hopen
        cases hopen
        exact ⟨hdir, fun handle hok => by cases hok⟩
      · rw [hsame] at hopen
        rcases hdir with hnone | ⟨region, manifest, done, active, blocks,
          content, hlayout, rfl⟩
        · rw [loadManifest_eq_none hnone] at hopen
          simp only [initializeSegments] at hopen
          rcases createSegment_cases fault dir firstSegment.file with
            ⟨error, herror⟩ | ⟨hfree, hcreated⟩
          · rw [herror] at hopen
            cases hopen
            exact ⟨Or.inl hnone, fun handle hok => by cases hok⟩
          · rw [hcreated] at hopen
            simp only at hopen
            have hstarted := layout_initialized dir
            rcases saveManifest_cases fault (dir.write firstSegment.file [])
                firstManifest with
              ⟨error, hsave⟩ | ⟨error, hsave⟩ | hsave
            · rw [hsave] at hopen
              cases hopen
              exact ⟨Or.inl hnone, fun handle hok => by cases hok⟩
            · rw [hsave] at hopen
              cases hopen
              exact ⟨Or.inr ⟨_, hstarted.lists⟩,
                fun handle hok => by cases hok⟩
            · rw [hsave] at hopen
              exact openManifest_attached P hstarted hopen
        · rw [hlayout.shape.load hlayout.saved hlayout.segments] at hopen
          exact openManifest_attached P hlayout hopen

end Opening

/-! ## Runs -/

/-- A directory and the handle on it, while a process has one. -/
structure SegmentStore where
  directory : Directory
  handle : Option SegmentedLedger

inductive SegmentEvent where
  | opens (key : SigningKey) (retired : List VerifyingKey)
      (policy : RolloverPolicy) (anchor : Option (Option Bytes))
      (fault : Option SegmentFault) (openFault : Option OpenFault)
  | calls (call : SegmentCall)
  | stops

namespace SegmentStore

/-- One event; an open drops the handle before it. -/
def step (store : SegmentStore) : SegmentEvent → SegmentStore
  | .opens key retired policy anchor fault openFault =>
      match openSegmentedInner P fault openFault store.directory key retired
          policy anchor with
      | (directory, .error _) => { directory, handle := none }
      | (directory, .ok handle) => { directory, handle := some handle }
  | .calls call =>
      match store.handle with
      | none => store
      | some handle =>
          match call.run P store.directory handle with
          | (directory, handle) => { directory, handle := some handle }
  | .stops => { store with handle := none }

/-- A directory without a manifest, after some events. -/
def after (files : List (String × Bytes)) (events : List SegmentEvent) :
    SegmentStore :=
  StateRun.run (step P)
    { directory := { manifest := none, files }, handle := none } events

def Sound (store : SegmentStore) : Prop :=
  store.directory.Usable ∧
    ∀ handle, store.handle = some handle → Attached P store.directory handle

end SegmentStore

theorem Attached.usable {dir : Directory} {handle : SegmentedLedger}
    (hattached : Attached P dir handle) : dir.Usable := by
  rcases hattached with ⟨_, _, _, _, _, hlayout, _⟩
  exact Or.inr ⟨_, hlayout.lists⟩

theorem SegmentStore.step_sound (store : SegmentStore) (event : SegmentEvent)
    (hsound : store.Sound P) : (store.step P event).Sound P := by
  cases event with
  | opens key retired policy anchor fault openFault =>
      rcases hopen : openSegmentedInner P fault openFault store.directory key
        retired policy anchor with ⟨after, result⟩
      rcases openSegmentedInner_attached P hsound.1 hopen with
        ⟨husable, hattached⟩
      simp only [SegmentStore.step, hopen]
      cases result with
      | error error => exact ⟨husable, fun handle hnone => by cases hnone⟩
      | ok handle =>
          refine ⟨husable, fun other hother => ?_⟩
          cases hother
          exact hattached handle rfl
  | calls call =>
      cases hhandle : store.handle with
      | none =>
          simp only [SegmentStore.step, hhandle]
          exact hsound
      | some handle =>
          have hcall := ((hsound.2 handle hhandle).call P call).2
          simp only [SegmentStore.step, hhandle]
          refine ⟨hcall.usable, fun other hother => ?_⟩
          cases hother
          exact hcall
  | stops => exact ⟨hsound.1, fun handle hnone => by cases hnone⟩

theorem SegmentStore.after_sound (files : List (String × Bytes))
    (events : List SegmentEvent) :
    (SegmentStore.after P files events).Sound P := by
  apply StateRun.run_preserves (SegmentStore.step P) _ _ fun _ _ => trivial
  · exact fun store event hstore _ =>
      SegmentStore.step_sound P store event hstore
  · exact ⟨Or.inl rfl, fun handle hnone => by cases hnone⟩

/-! ## Runs without faults -/

def LedgerCall.event : LedgerCall → SegmentEvent
  | .reopen key retired policy => .opens key retired policy none none none
  | .append entry => .calls (.append ⟨entry, none, none⟩)
  | .appendAll entries =>
      .calls (.appendAll (entries.map fun entry => ⟨entry, none, none⟩) none)
  | .rotate newKey => .calls (.rotate newKey)

def SegmentState.store (state : SegmentState) : SegmentStore where
  directory := state.directory
  handle := state.handle

theorem SegmentState.store_next (state : SegmentState) (call : LedgerCall) :
    (state.next P call).store = state.store.step P call.event := by
  rcases state with ⟨directory, handle⟩
  cases call with
  | reopen key retired policy =>
      simp only [SegmentState.next, SegmentState.call, LedgerCall.event,
        SegmentState.store, SegmentStore.step]
      rcases openSegmentedInner P none none directory key retired policy none
        with ⟨after, outcome⟩
      cases outcome <;> rfl
  | append entry => cases handle <;> rfl
  | appendAll entries =>
      cases handle with
      | none => rfl
      | some handle =>
          simp only [SegmentState.next, SegmentState.call, LedgerCall.event,
            SegmentState.store, SegmentStore.step, SegmentCall.run,
            appendBatch_none]
  | rotate newKey => cases handle <;> rfl

/-- A run without faults is a run of the store. -/
theorem SegmentState.store_run (calls : List LedgerCall) :
    (StateRun.run (SegmentState.next P) .start calls).store =
      SegmentStore.after P [] (calls.map LedgerCall.event) := by
  have hrun : ∀ state : SegmentState,
      (StateRun.run (SegmentState.next P) state calls).store =
        StateRun.run (SegmentStore.step P) state.store
          (calls.map LedgerCall.event) := by
    induction calls with
    | nil => exact fun _ => rfl
    | cons call rest ih =>
        intro state
        rw [List.map_cons, StateRun.run_cons, StateRun.run_cons, ih,
          SegmentState.store_next]
  exact hrun .start

end Decern
