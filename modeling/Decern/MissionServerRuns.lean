import Decern.MintingChains
import Decern.MissionRuns
import Decern.MissionServer
import Mathlib.Tactic

/-!
# No Mission without its approval

A registration runs only after its approval is on record, and nothing else
brings a Mission into the registry.  So whatever the registry holds is on
record, and so is what every Allow was under before it was recorded.
-/

namespace Decern

open Identity (Jose Mission approve)
open Serde (Value)

/-! ## What is on record -/

/-- The record of the Mission's approval, by another than its agent. -/
structure Entry.Approves (record : Entry) (s256 : String)
    (entry : MissionEntry) : Prop where
  action : record.action = "Mission.Approve"
  mission : record.mission = some ⟨entry.approver, s256⟩
  approver : record.subjectId = entry.approver
  agent : (record.context.get "agent").bind Value.asStr = some entry.agent
  other : entry.approver ≠ entry.agent

def OnRecord (ledger : List Entry) (s256 : String) (entry : MissionEntry) :
    Prop :=
  ∃ record ∈ ledger, record.Approves s256 entry

/-- An approval under the content hash. -/
def ApprovedIn (ledger : List Entry) (s256 : String) : Prop :=
  ∃ entry, OnRecord ledger s256 entry

/-- What allows under a Mission is its approval, or comes after it. -/
def ApprovedFirst (ledger : List Entry) : Prop :=
  ∀ before record after, ledger = before ++ record :: after →
    ∀ s256, record.allowedUnder = some s256 →
      (∃ entry, record.Approves s256 entry) ∨ ApprovedIn before s256

/-- What the record allows under is approved. -/
def Backed (ledger : List Entry) (record : Entry) : Prop :=
  ∀ s256, record.allowedUnder = some s256 → ApprovedIn ledger s256

section Ledgers

variable {ledger ledger' : List Entry} {record : Entry} {s256 : String}
  {entry : MissionEntry}

theorem allowedUnder_eq_some :
    record.allowedUnder = some s256 ↔
      record.decision = true ∧
        record.mission.map MissionRef.s256 = some s256 := by
  unfold Entry.allowedUnder
  by_cases hdecision : record.decision = true
  · simp [hdecision]
  · simp [hdecision]

theorem OnRecord.mono (hsub : ledger ⊆ ledger')
    (hrecord : OnRecord ledger s256 entry) : OnRecord ledger' s256 entry := by
  obtain ⟨record, hmem, happroves⟩ := hrecord
  exact ⟨record, hsub hmem, happroves⟩

theorem ApprovedIn.mono (hsub : ledger ⊆ ledger')
    (happroved : ApprovedIn ledger s256) : ApprovedIn ledger' s256 := by
  obtain ⟨entry, hrecord⟩ := happroved
  exact ⟨entry, hrecord.mono hsub⟩

theorem Backed.mono (hsub : ledger ⊆ ledger') (hbacked : Backed ledger record) :
    Backed ledger' record :=
  fun s256 hallowed => (hbacked s256 hallowed).mono hsub

/-- Termination changes nothing of who approved what. -/
theorem OnRecord.terminated (hrecord : OnRecord ledger s256 entry) :
    OnRecord ledger s256 { entry with terminated := true } := by
  obtain ⟨record, hmem, happroves⟩ := hrecord
  exact ⟨record, hmem, { happroves with }⟩

theorem subset_append (ledger : List Entry) (record : Entry) :
    ledger ⊆ MissionHost.append ledger record :=
  List.subset_append_left _ _

theorem subset_appendAll (entries ledger : List Entry) :
    ledger ⊆ MissionServer.appendAll ledger entries := by
  induction entries generalizing ledger with
  | nil => exact List.Subset.refl ledger
  | cons record rest ih =>
      exact List.Subset.trans (subset_append ledger record) (ih _)

theorem onRecord_append (happroves : record.Approves s256 entry) :
    OnRecord (MissionHost.append ledger record) s256 entry :=
  ⟨_, List.mem_append_right _ (List.mem_singleton_self _),
    { happroves with }⟩

theorem approvedFirst_append (hfirst : ApprovedFirst ledger)
    (hrecord : ∀ s256, record.allowedUnder = some s256 →
      (∃ entry, record.Approves s256 entry) ∨ ApprovedIn ledger s256) :
    ApprovedFirst (MissionHost.append ledger record) := by
  intro before other after hsplit s256 hallowed
  rcases List.eq_nil_or_concat after with rfl | ⟨rest, last, rfl⟩
  · -- the record just appended
    obtain ⟨hbefore, hlast⟩ := List.append_inj' hsplit rfl
    cases hlast
    subst hbefore
    rcases hrecord s256 hallowed with ⟨entry, happroves⟩ | happroved
    · exact Or.inl ⟨entry, { happroves with }⟩
    · exact Or.inr happroved
  · have hsplit' : ledger ++ [{ record with seq := ledger.length }] =
        (before ++ other :: rest) ++ [last] := by
      rw [List.concat_eq_append] at hsplit
      simpa [MissionHost.append] using hsplit
    obtain ⟨hearlier, _⟩ := List.append_inj' hsplit' rfl
    exact hfirst before other rest hearlier s256 hallowed

theorem approvedFirst_appendAll {entries : List Entry}
    (hfirst : ApprovedFirst ledger)
    (hbacked : ∀ record ∈ entries, Backed ledger record) :
    ApprovedFirst (MissionServer.appendAll ledger entries) := by
  induction entries generalizing ledger with
  | nil => exact hfirst
  | cons record rest ih =>
      apply ih
      · exact approvedFirst_append hfirst fun s256 hallowed =>
          Or.inr (hbacked record (by simp) s256 hallowed)
      · intro other hother
        exact (hbacked other (by simp [hother])).mono
          (subset_append ledger record)

end Ledgers

/-! ## The registry -/

section Registry

variable {place : MapPath MissionEntry} {P : String → MissionEntry → Prop}
  {map : Missions} {now : UInt64} {request : RegistryCall}
  {registry : HostRegistry}

theorem every_retain
    (hevery : ∀ (s256 : String) entry, map[s256]? = some entry →
      P s256 entry) (s256 : String) (entry : MissionEntry)
    (hfound : (retainMissions map now)[s256]? = some entry) :
    P s256 entry :=
  hevery s256 entry (getElem?_retainMissions_eq_some.mp hfound).1

/-- Every entry of a map after a call is one of before, terminated or not, or
the one registered. -/
theorem every_call
    (hmark : ∀ s256 entry, P s256 entry →
      P s256 { entry with terminated := true })
    (hevery : ∀ (s256 : String) entry, map[s256]? = some entry →
      P s256 entry)
    (hown : ∀ s256 entry, request = .register s256 entry → P s256 entry)
    (s256 : String) (entry : MissionEntry)
    (hfound : (MemoryMissionRegistry.call map now request).1[s256]? =
      some entry) :
    P s256 entry := by
  cases request with
  | status other => exact hevery s256 entry hfound
  | terminate other =>
      refine every_retain ?_ s256 entry hfound
      intro key found hkey
      rw [getElem?_markTerminated] at hkey
      by_cases hother : other = key
      · rw [if_pos hother] at hkey
        obtain ⟨before, hbefore, rfl⟩ := Option.map_eq_some_iff.mp hkey
        exact hmark key before (hevery key before hbefore)
      · rw [if_neg hother] at hkey
        exact hevery key found hkey
  | register other new =>
      change (missionRegister map other new now).1[s256]? = _ at hfound
      rcases missionRegister_cases map other new now with
        ⟨error, heq⟩ | ⟨found, _, _, heq⟩ | ⟨_, _, heq⟩
      · rw [heq] at hfound
        exact every_retain hevery s256 entry hfound
      · rw [heq] at hfound
        exact every_retain hevery s256 entry hfound
      · rw [heq] at hfound
        simp only [Std.ExtTreeMap.getElem?_insert,
          Std.LawfulEqCmp.compare_eq_iff_eq] at hfound
        by_cases hother : other = s256
        · rw [if_pos hother] at hfound
          cases hfound
          rw [← hother]
          exact hown _ _ rfl
        · rw [if_neg hother] at hfound
          exact every_retain hevery s256 entry hfound

namespace HostRegistry

theorem holding_write {file : MapFile MissionEntry}
    {handle : CoherentCache MissionEntry}
    {update : Missions → Missions × Except StoreError Unit × Bool}
    (hupdate : ∀ map : Missions,
      (∀ (s256 : String) entry, map[s256]? = some entry → P s256 entry) →
      ∀ (s256 : String) entry, (update map).1[s256]? = some entry →
        P s256 entry)
    (hholding : ∀ s256 entry, (onFile file handle).Holding s256 entry →
      P s256 entry) (s256 : String) (entry : MissionEntry) :
    let after := FileMissionRegistry.write place file handle update
    (onFile after.1.1 after.1.2).Holding s256 entry → P s256 entry := by
  intro after hfound
  have hfile : ∀ map, readCoherentMap file = .ok map →
      ∀ (key : String) found, map[key]? = some found → P key found := by
    intro map hread key found hkey
    unfold readCoherentMap at hread
    split at hread
    case h_1 =>
      cases hread
      simp at hkey
    case h_2 held hcontent =>
      cases hread
      exact hholding key found (Or.inl ⟨map, hcontent, hkey⟩)
    case h_3 => cases hread
  cases hread : readCoherentMap file with
  | error error =>
      have hafter : after = ((file, handle), .outcome (.error error)) := by
        simp only [after, FileMissionRegistry.write, CoherentMap.write, hread]
        rfl
      rw [hafter] at hfound
      exact hholding s256 entry hfound
  | ok map =>
      have hupdated := hupdate map (hfile map hread)
      have hafter : after.1 = (if (update map).2.2 then
          (⟨.holds (update map).1, file.version + 1⟩ : MapFile MissionEntry)
          else file, ⟨(update map).1, fileFingerprint place
            (if (update map).2.2 then
              ⟨.holds (update map).1, file.version + 1⟩ else file)⟩) := by
        simp only [after, FileMissionRegistry.write, CoherentMap.write, hread]
        rfl
      rw [hafter] at hfound
      rcases hfound with ⟨held, hcontent, hkey⟩ | hkey
      · by_cases hdirty : (update map).2.2 = true
        · simp only [if_pos hdirty, Stored.holds.injEq] at hcontent
          exact hupdated s256 entry (hcontent ▸ hkey)
        · simp only [if_neg hdirty] at hcontent
          exact hholding s256 entry (Or.inl ⟨held, hcontent, hkey⟩)
      · exact hupdated s256 entry hkey

/-- So it is of a registry, wherever it keeps its map. -/
theorem holding_call
    (hmark : ∀ s256 entry, P s256 entry →
      P s256 { entry with terminated := true })
    (hholding : ∀ s256 entry, registry.Holding s256 entry → P s256 entry)
    (hwrite : ∀ s256, request ≠ .status s256)
    (hown : ∀ s256 entry, request = .register s256 entry → P s256 entry)
    (s256 : String) (entry : MissionEntry)
    (hfound : (registry.call place now request).1.Holding s256 entry) :
    P s256 entry := by
  cases registry with
  | inMemory map => exact every_call hmark hholding hown s256 entry hfound
  | onFile file handle =>
      cases request with
      | status other => exact absurd rfl (hwrite other)
      | register other new =>
          refine holding_write ?_ hholding s256 entry hfound
          intro map hevery key found hkey
          exact every_call hmark hevery hown key found hkey
      | terminate other =>
          refine holding_write ?_ hholding s256 entry hfound
          intro map hevery key found hkey
          exact every_call hmark hevery hown key found hkey

theorem holding_unacknowledged {before after : HostRegistry} {s256 : String}
    {entry : MissionEntry}
    (hfound : (before.unacknowledged after).Holding s256 entry) :
    before.Holding s256 entry ∨ after.Holding s256 entry := by
  cases before with
  | inMemory map => exact Or.inr hfound
  | onFile file handle =>
      cases after with
      | inMemory map => exact Or.inr hfound
      | onFile file' handle' =>
          rcases hfound with hfile | hcopy
          · exact Or.inr (Or.inl hfile)
          · exact Or.inl (Or.inr hcopy)

theorem holding_failedCall {kept : ℕ}
    (hmark : ∀ s256 entry, P s256 entry →
      P s256 { entry with terminated := true })
    (hholding : ∀ s256 entry, registry.Holding s256 entry → P s256 entry)
    (hwrite : ∀ s256, request ≠ .status s256)
    (hown : ∀ s256 entry, request = .register s256 entry → P s256 entry)
    (s256 : String) (entry : MissionEntry)
    (hfound : (registry.failedCall place kept now request).Holding s256
      entry) :
    P s256 entry := by
  unfold failedCall at hfound
  by_cases hkept : kept = 0
  · rw [if_pos hkept] at hfound
    exact hholding s256 entry hfound
  · rw [if_neg hkept] at hfound
    rcases holding_unacknowledged hfound with hbefore | hafter
    · exact hholding s256 entry hbefore
    · exact holding_call hmark hholding hwrite hown s256 entry hafter

/-- A registry answers from what it holds. -/
theorem holding_of_status {s256 : String} {entry : MissionEntry}
    (hstatus : registry.status place s256 = .ok (some entry)) :
    registry.Holding s256 entry := by
  cases registry with
  | inMemory map =>
      simp only [HostRegistry.status, HostRegistry.view, Except.map,
        Except.ok.injEq] at hstatus
      exact hstatus
  | onFile file handle =>
      simp only [HostRegistry.status, HostRegistry.view,
        CoherentMap.read] at hstatus
      by_cases hfp : fileFingerprint place file = handle.fp
      · rw [if_pos hfp] at hstatus
        simp only [Except.map, Except.ok.injEq] at hstatus
        exact Or.inr hstatus
      · rw [if_neg hfp] at hstatus
        cases hcontent : file.content with
        | absent =>
            simp [fileFingerprint, hcontent, Except.map] at hstatus
        | holds map =>
            simp [fileFingerprint, readCoherentMap, hcontent, Except.map,
              bind, Except.bind, pure, Except.pure] at hstatus
            exact Or.inl ⟨map, hcontent, hstatus⟩
        | unreadable message =>
            simp [fileFingerprint, readCoherentMap, hcontent, Except.map,
              bind, Except.bind] at hstatus

end HostRegistry

end Registry

/-! ## The server -/

namespace MissionServer

/-- What a request under way has to show for itself in the ledger. -/
def TransitionTracked (ledger : List Entry) : MissionTask → Prop
  | .idle => True
  | .deciding _ _ => False
  | .bound _ => False
  | .approving columns s256 mission now =>
      (missionEntry columns now mission.approver "Mission.Approve"
        s256).Approves s256 mission
  | .approved columns s256 mission now =>
      (missionEntry columns now mission.approver "Mission.Approve"
        s256).Approves s256 mission
  | .registering s256 mission _ => OnRecord ledger s256 mission
  | .terminating _ _ _ => True
  | .resolved _ s256 _ _ => ApprovedIn ledger s256
  | .persisted _ s256 _ _ => ApprovedIn ledger s256

def Tracked (ledger : List Entry) : ServerTask → Prop
  | .transition task => TransitionTracked ledger task
  | .deciding decided _ => ∀ record ∈ decided, Backed ledger record
  | .decided entries => ∀ record ∈ entries, Backed ledger record
  | .settled entries rest => ∀ record ∈ entries ++ rest, Backed ledger record

/-- The state of the two stores: what is registered is on record, and what
allows comes after what it is under. -/
structure Recorded (registry : HostRegistry) (ledger : List Entry) :
    Prop where
  registry : ∀ s256 entry, registry.Holding s256 entry →
    OnRecord ledger s256 entry
  ledger : ApprovedFirst ledger

variable {T : Type} [DecidableEq T] {S P : Type} {J : Jose}
  {model : Model S P} {sharded : Bool} {place : MapPath MissionEntry}
  {registry : HostRegistry} {ledger ledger' : List Entry}

theorem Tracked.mono (hsub : ledger ⊆ ledger') {task : ServerTask}
    (htracked : Tracked ledger task) : Tracked ledger' task := by
  cases task with
  | transition task =>
      cases task with
      | idle => trivial
      | deciding request now => exact htracked
      | bound entry => exact htracked
      | approving columns s256 mission now => exact htracked
      | approved columns s256 mission now => exact htracked
      | registering s256 mission now => exact OnRecord.mono hsub htracked
      | terminating columns s256 now => trivial
      | resolved columns s256 mission now => exact ApprovedIn.mono hsub htracked
      | persisted columns s256 mission now =>
          exact ApprovedIn.mono hsub htracked
  | deciding decided rest =>
      exact fun record hmem => (htracked record hmem).mono hsub
  | decided entries => exact fun record hmem => (htracked record hmem).mono hsub
  | settled entries rest =>
      exact fun record hmem => (htracked record hmem).mono hsub

theorem Recorded.append {record : Entry} (hstate : Recorded registry ledger)
    (hrecord : ∀ s256, record.allowedUnder = some s256 →
      (∃ entry, record.Approves s256 entry) ∨ ApprovedIn ledger s256) :
    Recorded registry (MissionHost.append ledger record) where
  registry s256 entry hholding :=
    (hstate.registry s256 entry hholding).mono (subset_append ledger record)
  ledger := approvedFirst_append hstate.ledger hrecord

theorem Recorded.appendAll {entries : List Entry}
    (hstate : Recorded registry ledger)
    (hbacked : ∀ record ∈ entries, Backed ledger record) :
    Recorded registry (appendAll ledger entries) where
  registry s256 entry hholding :=
    (hstate.registry s256 entry hholding).mono (subset_appendAll entries ledger)
  ledger := approvedFirst_appendAll hstate.ledger hbacked

theorem onRecord_mark (s256 : String) (entry : MissionEntry)
    (hrecord : OnRecord ledger s256 entry) :
    OnRecord ledger s256 { entry with terminated := true } :=
  hrecord.terminated

theorem Recorded.register {s256 : String} {mission : MissionEntry}
    (hstate : Recorded registry ledger)
    (hrecord : OnRecord ledger s256 mission) (now : UInt64) :
    Recorded (registry.call place now (.register s256 mission)).1 ledger where
  registry := by
    apply HostRegistry.holding_call onRecord_mark hstate.registry (by simp)
    intro other entry hsame
    cases hsame
    exact hrecord
  ledger := hstate.ledger

theorem Recorded.terminate (hstate : Recorded registry ledger)
    (now : UInt64) (s256 : String) :
    Recorded (registry.call place now (.terminate s256)).1 ledger where
  registry := by
    apply HostRegistry.holding_call onRecord_mark hstate.registry (by simp)
    intro other entry hsame
    cases hsame
  ledger := hstate.ledger

theorem Recorded.failedRegister {s256 : String} {mission : MissionEntry}
    (hstate : Recorded registry ledger)
    (hrecord : OnRecord ledger s256 mission) (kept : ℕ) (now : UInt64) :
    Recorded (registry.failedCall place kept now (.register s256 mission))
      ledger where
  registry := by
    apply HostRegistry.holding_failedCall onRecord_mark hstate.registry
      (by simp)
    intro other entry hsame
    cases hsame
    exact hrecord
  ledger := hstate.ledger

theorem Recorded.failedTerminate (hstate : Recorded registry ledger)
    (kept : ℕ) (now : UInt64) (s256 : String) :
    Recorded (registry.failedCall place kept now (.terminate s256))
      ledger where
  registry := by
    apply HostRegistry.holding_failedCall onRecord_mark hstate.registry
      (by simp)
    intro other entry hsame
    cases hsame
  ledger := hstate.ledger

/-- A termination allows nothing that was not approved. -/
theorem Recorded.appendTermination {columns : Entry} {now : UInt64}
    {s256 approver : String} (hstate : Recorded registry ledger)
    (happroved : ApprovedIn ledger s256) :
    Recorded registry (MissionHost.append ledger
      (missionEntry columns now approver "Mission.Terminate" s256)) := by
  apply hstate.append
  intro other hallowed
  have hsame : s256 = other :=
    Option.some.inj (allowedUnder_eq_some.mp hallowed).2
  exact Or.inr (hsame ▸ happroved)

theorem Recorded.appendApproval {record : Entry} {s256 : String}
    {mission : MissionEntry} (hstate : Recorded registry ledger)
    (happroves : record.Approves s256 mission) :
    Recorded registry (MissionHost.append ledger record) := by
  apply hstate.append
  intro other hallowed
  refine Or.inl ⟨mission, ?_⟩
  have hsame : s256 = other := by
    have hmission := (allowedUnder_eq_some.mp hallowed).2
    rw [happroves.mission] at hmission
    exact Option.some.inj hmission
  exact hsame ▸ happroves

theorem Recorded.status {s256 : String} {entry : MissionEntry}
    (hstate : Recorded registry ledger)
    (hstatus : registry.status place s256 = .ok (some entry)) :
    ApprovedIn ledger s256 :=
  ⟨entry, hstate.registry s256 entry (HostRegistry.holding_of_status hstatus)⟩

/-! ### Steps -/

/-- A decision is backed by what the registry showed when it was bound. -/
theorem backed_decided (hstate : Recorded registry ledger)
    (outcome : StepOutcome) (request : DecisionRequest) (now : UInt64) :
    Backed ledger (request.decided (bindMission
      (statusAt place registry outcome) request.dir request.required
      request.subjectId request.action request.context now)) := by
  intro s256 hallowed
  cases hbound : bindMission (statusAt place registry outcome) request.dir
      request.required request.subjectId request.action request.context now with
  | none =>
      rw [hbound] at hallowed
      simp [DecisionRequest.decided, allowedUnder_eq_some] at hallowed
  | deny errors =>
      rw [hbound] at hallowed
      simp [DecisionRequest.decided, allowedUnder_eq_some] at hallowed
  | ok reference =>
      rw [hbound] at hallowed
      obtain ⟨mission, hmission⟩ := boundMission_of_bindMission hbound
      obtain ⟨entry, hstatus, _⟩ := status_of_boundMission hmission
      have hsame : reference.s256 = s256 :=
        Option.some.inj (allowedUnder_eq_some.mp hallowed).2
      cases outcome with
      | failed error kept => cases hstatus
      | done => exact hsame ▸ hstate.status hstatus

theorem backed_settle {status : String → MissionStatus}
    {record settled : Entry} (hsettle : settle status record = .ok settled)
    (hbacked : Backed ledger record) : Backed ledger settled := by
  rcases settle_cases hsettle with rfl | ⟨reasons, rfl⟩
  · exact hbacked
  · intro s256 hallowed
    simp [allowedUnder_eq_some] at hallowed

theorem backed_settleAll {status : String → MissionStatus}
    {entries settled : List Entry}
    (hsettle : entries.mapM (settle status) = .ok settled)
    (hbacked : ∀ record ∈ entries, Backed ledger record) :
    ∀ record ∈ settled, Backed ledger record := by
  induction entries generalizing settled with
  | nil =>
      cases hsettle
      simp
  | cons first rest ih =>
      rw [List.mapM_cons] at hsettle
      obtain ⟨head, hhead, htail⟩ := Serde.bind_eq_ok.mp hsettle
      obtain ⟨tail, hrest, hcons⟩ := Serde.bind_eq_ok.mp htail
      cases hcons
      intro record hmem
      rcases List.mem_cons.mp hmem with rfl | hmem
      · exact backed_settle hhead (hbacked first (by simp))
      · exact ih hrest (fun other hother => hbacked other (by simp [hother]))
          record hmem

/-- What one step of a request leaves. -/
structure StepRecorded (ledger : List Entry)
    (after : HostRegistry × List Entry × ServerTask) : Prop where
  grows : ledger ⊆ after.2.1
  state : Recorded after.1 after.2.1
  tracked : Tracked after.2.1 after.2.2

theorem stepRecorded_unchanged {task : ServerTask}
    (hstate : Recorded registry ledger) (htracked : Tracked ledger task) :
    StepRecorded ledger (registry, ledger, task) :=
  ⟨List.Subset.refl ledger, hstate, htracked⟩

theorem transition_done (hstate : Recorded registry ledger)
    {task : MissionTask} (htracked : TransitionTracked ledger task) :
    StepRecorded ledger
      ((MissionHost.taskStep place registry ledger true task).1,
        (MissionHost.taskStep place registry ledger true task).2.1,
        .transition (MissionHost.taskStep place registry ledger true
          task).2.2) := by
  cases task with
  | idle => exact stepRecorded_unchanged hstate trivial
  | deciding request now => cases htracked
  | bound entry => cases htracked
  | approving columns s256 mission now =>
      cases hstatus : registry.status place s256 with
      | error error =>
          simp only [MissionHost.taskStep, hstatus]
          exact stepRecorded_unchanged hstate trivial
      | ok found =>
          simp only [MissionHost.taskStep, hstatus]
          by_cases hterminated :
              (found.map MissionEntry.terminated).getD false = true
          · simp only [if_pos hterminated]
            exact stepRecorded_unchanged hstate trivial
          · simp only [if_neg hterminated]
            exact stepRecorded_unchanged hstate htracked
  | approved columns s256 mission now =>
      exact {
        grows := subset_append ledger _
        state := hstate.appendApproval htracked
        tracked := onRecord_append htracked }
  | registering s256 mission now =>
      exact {
        grows := List.Subset.refl ledger
        state := hstate.register htracked now
        tracked := trivial }
  | terminating columns s256 now =>
      cases hstatus : registry.status place s256 with
      | error error =>
          simp only [MissionHost.taskStep, hstatus]
          exact stepRecorded_unchanged hstate trivial
      | ok found =>
          cases found with
          | none =>
              simp only [MissionHost.taskStep, hstatus]
              exact stepRecorded_unchanged hstate trivial
          | some entry =>
              simp only [MissionHost.taskStep, hstatus]
              exact stepRecorded_unchanged hstate (hstate.status hstatus)
  | resolved columns s256 mission now =>
      unfold MissionHost.taskStep
      dsimp only
      split
      case h_1 =>
        exact {
          grows := List.Subset.refl ledger
          state := hstate.terminate now s256
          tracked := htracked }
      case h_2 =>
        exact {
          grows := List.Subset.refl ledger
          state := hstate.terminate now s256
          tracked := trivial }
  | persisted columns s256 mission now =>
      exact {
        grows := subset_append ledger _
        state := hstate.appendTermination htracked
        tracked := trivial }

theorem transition_failed (hstate : Recorded registry ledger)
    {task : MissionTask} (htracked : TransitionTracked ledger task)
    (kept : ℕ) :
    StepRecorded ledger ((failedStep place registry ledger kept task).1,
      (failedStep place registry ledger kept task).2,
      .transition .idle) := by
  cases task with
  | approved columns s256 mission now =>
      by_cases hkept : kept = 0
      · simp only [failedStep, if_pos hkept]
        exact stepRecorded_unchanged hstate trivial
      · simp only [failedStep, if_neg hkept]
        exact {
          grows := subset_append ledger _
          state := hstate.appendApproval htracked
          tracked := trivial }
  | registering s256 mission now =>
      exact {
        grows := List.Subset.refl ledger
        state := hstate.failedRegister htracked kept now
        tracked := trivial }
  | resolved columns s256 mission now =>
      exact {
        grows := List.Subset.refl ledger
        state := hstate.failedTerminate kept now s256
        tracked := trivial }
  | persisted columns s256 mission now =>
      by_cases hkept : kept = 0
      · simp only [failedStep, if_pos hkept]
        exact stepRecorded_unchanged hstate trivial
      · simp only [failedStep, if_neg hkept]
        exact {
          grows := subset_append ledger _
          state := hstate.appendTermination htracked
          tracked := trivial }
  | idle => exact stepRecorded_unchanged hstate trivial
  | deciding request now => cases htracked
  | bound entry => cases htracked
  | approving columns s256 mission now =>
      exact stepRecorded_unchanged hstate trivial
  | terminating columns s256 now =>
      exact stepRecorded_unchanged hstate trivial

theorem together_append (entries : List Entry) :
    (together sharded entries).1 ++ (together sharded entries).2 =
      entries := by
  cases sharded with
  | true => exact List.take_append_drop 1 entries
  | false => exact List.append_nil entries

theorem taskStep_recorded (hstate : Recorded registry ledger)
    {task : ServerTask} (htracked : Tracked ledger task) (clock : UInt64)
    (outcome : StepOutcome) :
    StepRecorded ledger
      (taskStep sharded place registry ledger clock outcome task) := by
  cases task with
  | transition task =>
      cases outcome with
      | done => exact transition_done hstate htracked
      | failed error kept => exact transition_failed hstate htracked kept
  | deciding decided rest =>
      cases rest with
      | nil => exact stepRecorded_unchanged hstate htracked
      | cons request rest =>
          apply stepRecorded_unchanged hstate
          intro record hmem
          rcases List.mem_append.mp hmem with hmem | hmem
          · exact htracked record hmem
          · rw [List.mem_singleton.mp hmem]
            exact backed_decided hstate outcome request clock
  | decided entries =>
      have hbacked : ∀ record ∈ (together sharded entries).1 ++
          (together sharded entries).2, Backed ledger record := by
        rw [together_append]
        exact htracked
      unfold taskStep
      dsimp only
      split
      case h_1 => exact stepRecorded_unchanged hstate trivial
      case h_2 settled hsettled =>
        apply stepRecorded_unchanged hstate
        intro record hmem
        rcases List.mem_append.mp hmem with hmem | hmem
        · exact backed_settleAll hsettled (fun other hother =>
            hbacked other (List.mem_append_left _ hother)) record hmem
        · exact hbacked record (List.mem_append_right _ hmem)
  | settled entries rest =>
      have hnow : ∀ record ∈ entries, Backed ledger record :=
        fun record hmem => htracked record (List.mem_append_left _ hmem)
      cases outcome with
      | done =>
          refine ⟨subset_appendAll entries ledger, hstate.appendAll hnow, ?_⟩
          unfold taskStep
          dsimp only
          by_cases hrest : rest.isEmpty = true
          · rw [if_pos hrest]
            trivial
          · rw [if_neg hrest]
            intro record hmem
            exact (htracked record (List.mem_append_right _ hmem)).mono
              (subset_appendAll entries ledger)
      | failed error kept =>
          exact {
            grows := subset_appendAll (entries.take kept) ledger
            state := hstate.appendAll fun record hmem =>
              hnow record (List.mem_of_mem_take hmem)
            tracked := trivial }

/-- A request starts with nothing to show but, for an approval, what will be
its record. -/
theorem begun_tracked (now : UInt64) (request : ServerRequest) :
    Tracked ledger (begun J model now request) := by
  cases request with
  | decide requests =>
      intro record hmem
      cases hmem
  | terminate columns s256 => trivial
  | approve columns mission =>
      unfold begun
      dsimp only
      cases happrove : approve J model { mission with approvedAt := now }
          now with
      | error error => trivial
      | ok approved =>
          obtain ⟨hvouches, rfl⟩ := Identity.approve_eq_ok happrove
          exact {
            action := rfl
            mission := rfl
            approver := rfl
            agent := rfl
            other := hvouches.other }

/-! ### Runs -/

structure Approved (server : MissionServer T) : Prop where
  state : Recorded server.registry server.ledger
  tasks : ∀ task, Tracked server.ledger (server.tasks task)

theorem approved_step (server : MissionServer T) (action : ServerStep T)
    (happroved : Approved server) :
    Approved (step J model sharded place server action) := by
  cases action with
  | tick now => exact ⟨happroved.state, happroved.tasks⟩
  | start task request =>
      refine ⟨happroved.state, fun other => ?_⟩
      by_cases hother : other = task
      · subst hother
        simp only [step, Function.update_self]
        exact begun_tracked server.clock request
      · simp only [step, Function.update_of_ne hother]
        exact happroved.tasks other
  | advance task outcome =>
      have hstep : StepRecorded server.ledger (taskStep sharded place
          server.registry server.ledger server.clock outcome
            (server.tasks task)) :=
        taskStep_recorded happroved.state (happroved.tasks task) server.clock
          outcome
      refine ⟨hstep.state, fun other => ?_⟩
      by_cases hother : other = task
      · subst hother
        simp only [step, Function.update_self]
        exact hstep.tracked
      · simp only [step, Function.update_of_ne hother]
        exact (happroved.tasks other).mono hstep.grows

omit [DecidableEq T] in
theorem Empty.approved {server : MissionServer T} (hempty : server.Empty) :
    Approved server where
  state := {
    registry := fun s256 entry hholding =>
      absurd hholding (hempty.registry s256 entry)
    ledger := by
      intro before record after hsplit
      rw [hempty.ledger] at hsplit
      cases before <;> cases hsplit }
  tasks task := by
    rw [hempty.tasks task]
    trivial

/-- In every state of every run, what the registry holds has its approval in
the ledger, and what allows under a Mission has it before itself. -/
theorem missions_approved_on_record {T : Type} [DecidableEq T] {S P : Type}
    (J : Jose) (model : Model S P) (sharded : Bool)
    (place : MapPath MissionEntry) {start : MissionServer T}
    (hempty : start.Empty) (steps : List (ServerStep T)) :
    let reached := StateRun.run (step J model sharded place) start steps
    (∀ s256 entry, reached.registry.Holding s256 entry →
      ∃ record ∈ reached.ledger, record.Approves s256 entry) ∧
    ∀ before record after, reached.ledger = before ++ record :: after →
      ∀ s256, record.allowedUnder = some s256 →
        (∃ entry, record.Approves s256 entry) ∨
        ∃ entry, ∃ approval ∈ before, approval.Approves s256 entry := by
  intro reached
  have happroved : Approved reached := by
    apply StateRun.run_preserves (step J model sharded place)
      (fun server action happroved (_ : True) =>
        approved_step server action happroved)
      hempty.approved
    exact fun _ _ => trivial
  exact ⟨happroved.state.registry, happroved.state.ledger⟩

/-! ### A sample -/

/-- Alice approves of the bot reading. -/
def sampleMission : Mission where
  approver := "alice"
  agent := "bot"
  approvedAt := 100
  description := "read the account"
  approvedTools := ["read"]
  capabilities := []
  expiry := 800

def sampleServer : MissionServer (Fin 2) where
  registry := .inMemory ∅
  ledger := []
  clock := 100
  tasks _ := .transition .idle

def sampleApproval : List (ServerStep (Fin 2)) :=
  [.start 0 (.approve {} sampleMission), .advance 0 .done,
    .advance 0 .done, .advance 0 .done]

theorem sampleMission_approved :
    (approve Identity.sampleJose sampleModel sampleMission
      100).toOption.isSome = true := by
  decide +kernel

theorem sampleServer_empty : sampleServer.Empty where
  registry s256 entry hholding := by
    have hnone : (∅ : Missions)[s256]? = some entry := hholding
    simp at hnone
  ledger := rfl
  tasks _ := rfl

theorem missions_approved_on_record_sample :
    ∃ approved, approve Identity.sampleJose sampleModel sampleMission 100 =
        .ok approved ∧
      (StateRun.run (step Identity.sampleJose sampleModel false
        RegistryWorld.samplePlace) sampleServer
          sampleApproval).registry.Holding approved.s256 approved.entry ∧
      ∃ record ∈ (StateRun.run (step Identity.sampleJose sampleModel false
        RegistryWorld.samplePlace) sampleServer sampleApproval).ledger,
          record.Approves approved.s256 approved.entry := by
  obtain ⟨approved, hsome⟩ :=
    Option.isSome_iff_exists.mp sampleMission_approved
  have happrove := toOption_eq_some.mp hsome
  obtain ⟨hregistered, _⟩ := missions_approved_on_record Identity.sampleJose
    sampleModel false RegistryWorld.samplePlace sampleServer_empty
    sampleApproval
  have hexpiry : ¬ approved.entry.expiry ≤ 100 := by
    obtain ⟨_, rfl⟩ := Identity.approve_eq_ok happrove
    decide
  have hkept : retainMissions ∅ 100 = ∅ := by
    apply Std.ExtTreeMap.ext_getElem?
    intro key
    simp [getElem?_retainMissions]
  have hbegun : begun Identity.sampleJose sampleModel 100
      (.approve {} sampleMission) = .transition (.approving
        { ({} : Entry) with context := approved.context } approved.s256
        approved.entry 100) := by
    have hsame : { sampleMission with approvedAt := 100 } = sampleMission :=
      rfl
    simp only [begun, hsame, happrove]
  have hholding : (StateRun.run (step Identity.sampleJose sampleModel false
      RegistryWorld.samplePlace) sampleServer
        sampleApproval).registry.Holding approved.s256 approved.entry := by
    simp [sampleApproval, step, sampleServer, hbegun, taskStep,
      MissionHost.taskStep, HostRegistry.status, HostRegistry.view,
      Except.map, HostRegistry.call, MemoryMissionRegistry.call,
      missionRegister, hkept, hexpiry, HostRegistry.Holding]
  exact ⟨approved, happrove, hholding, hregistered _ _ hholding⟩

end MissionServer

end Decern
