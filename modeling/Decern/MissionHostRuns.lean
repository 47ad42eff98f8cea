import Decern.MissionAgreement
import Decern.MissionHost
import Mathlib.Tactic

/-!
# Termination in the record

While a Mission is unexpired its termination stays in the registry, so every
decision settled after the record of its termination is a Deny.  An Allow can
follow that record only past the expiry, once the registry has dropped the
Mission.
-/

namespace Decern

variable {place : MapPath MissionEntry} {entryOf : String → MissionEntry}

/-! ## One Mission of a map -/

/-- What a write makes of one Mission's place, while the Mission is
unexpired. -/
def updatedAt (s256 : String) (now : UInt64) (found : Option MissionEntry) :
    RegistryCall → Option MissionEntry
  | .register other entry =>
      if other = s256 then
        match found with
        | some existing => some existing
        | none => if entry.expiry ≤ now then none else some entry
      else found
  | .terminate other =>
      if other = s256 then
        found.map fun entry => { entry with terminated := true }
      else found
  | .status _ => found

section Maps

variable {map : Missions} {s256 : String} {now : UInt64}
  {request : RegistryCall}

theorem retained_of_unexpired {entry : MissionEntry}
    (h : now < entry.expiry) : missionEntryRetained entry now = true := by
  by_contra hnot
  have hexpired := expiry_le_of_not_retained (Bool.eq_false_of_not_eq_true hnot)
  exact absurd hexpired (UInt64.not_le.mpr h)

theorem retain_at (hsame : SameEntries entryOf map)
    (hlive : now < (entryOf s256).expiry) :
    (retainMissions map now)[s256]? = map[s256]? := by
  rw [getElem?_retainMissions]
  cases hfound : map[s256]? with
  | none => rfl
  | some entry =>
      obtain ⟨terminated, rfl⟩ := hsame s256 entry hfound
      have hretained := retained_of_unexpired
        (show now < { entryOf s256 with terminated := terminated }.expiry
          from hlive)
      simp [hretained]

theorem mark_at (other : String) :
    (markTerminated map other)[s256]? =
      updatedAt s256 now map[s256]? (.terminate other) :=
  getElem?_markTerminated

/-- A write changes nothing of an unexpired Mission but by naming it. -/
theorem call_at (hsame : SameEntries entryOf map)
    (hlive : now < (entryOf s256).expiry)
    (hown : ∀ s256 entry, request = .register s256 entry →
      entry = entryOf s256) :
    (MemoryMissionRegistry.call map now request).1[s256]? =
      updatedAt s256 now map[s256]? request := by
  cases request with
  | status other => rfl
  | terminate other =>
      have hmarked : SameEntries entryOf (markTerminated map other) :=
        hsame.of_mark
      exact (retain_at hmarked hlive).trans (mark_at other)
  | register other entry =>
      have hkept := retain_at hsame hlive
      change (missionRegister map other entry now).1[s256]? = _
      by_cases hother : other = s256
      · subst hother
        unfold missionRegister updatedAt
        simp only [hkept, if_true]
        cases hfound : map[other]? with
        | some existing =>
            rw [hfound] at hkept
            cases hterminated : existing.terminated with
            | true => simp [hterminated, hkept]
            | false => simp [hterminated, hkept]
        | none =>
            rw [hfound] at hkept
            by_cases hexpired : entry.expiry ≤ now
            · simp [hexpired, hkept]
            · simp [hexpired]
      · simp only [updatedAt, if_neg hother]
        rcases missionRegister_cases map other entry now with
          ⟨error, heq⟩ | ⟨found, hfound, hactive, heq⟩ | ⟨hnone, hfuture, heq⟩
        · rw [heq, hkept]
        · rw [heq, hkept]
        · rw [heq]
          simp [Std.ExtTreeMap.getElem?_insert, hother, hkept]

/-- So too in the file, where a write that saves nothing leaves the map. -/
theorem saved_at (hsame : SameEntries entryOf map)
    (hlive : now < (entryOf s256).expiry)
    (hown : ∀ s256 entry, request = .register s256 entry →
      entry = entryOf s256) :
    (savedBy map now request)[s256]? =
      updatedAt s256 now map[s256]? request := by
  rw [← call_at hsame hlive hown]
  cases request with
  | status other => rfl
  | terminate other =>
      unfold savedBy
      simp only
      split
      case isTrue => rfl
      case isFalse hdirty =>
        have hkept := terminate_of_not_dirty
          (Bool.eq_false_of_not_eq_true hdirty)
        change _ = (missionTerminate map other now).1[s256]?
        rw [hkept, retain_at hsame hlive]
  | register other entry =>
      unfold savedBy
      simp only
      split
      case isTrue => rfl
      case isFalse hdirty =>
        have hkept := register_of_not_dirty
          (Bool.eq_false_of_not_eq_true hdirty)
        change _ = (missionRegister map other entry now).1[s256]?
        rw [hkept, retain_at hsame hlive]

end Maps

/-! ## The host's registry -/

namespace HostRegistry

/-- What the registry has on record, and what it answers from. -/
def Holds (place : MapPath MissionEntry) (registry : HostRegistry)
    (recorded shown : Missions) : Prop :=
  match registry with
  | .inMemory map => map = recorded ∧ map = shown
  | .onFile file handle =>
      file.content = .holds recorded ∧
        handle.fp = fileFingerprint place file ∧ handle.map = shown

theorem Holds.view {registry : HostRegistry} {recorded shown : Missions}
    (hholds : registry.Holds place recorded shown) :
    registry.view place = .ok shown := by
  cases registry with
  | inMemory map =>
      obtain ⟨-, rfl⟩ := hholds
      rfl
  | onFile file handle =>
      obtain ⟨-, hfp, rfl⟩ := hholds
      simp only [HostRegistry.view, CoherentMap.read, hfp, if_true]
      rfl

/-- A registration or a termination, in memory or in the file. -/
theorem Holds.call {registry : HostRegistry} {recorded shown : Missions}
    (hholds : registry.Holds place recorded shown) (now : UInt64)
    {request : RegistryCall} (hwrite : ∀ s256, request ≠ .status s256) :
    ∃ saved result, (saved = savedBy recorded now request ∨
        saved = (MemoryMissionRegistry.call recorded now request).1) ∧
      (registry.call place now request).2 = .outcome result ∧
      (∀ s256, request = .terminate s256 → result = .ok ()) ∧
      (registry.call place now request).1.Holds place saved
        (MemoryMissionRegistry.call recorded now request).1 := by
  cases registry with
  | inMemory map =>
      obtain ⟨rfl, -⟩ := hholds
      cases request with
      | status s256 => exact absurd rfl (hwrite s256)
      | register s256 entry =>
          exact ⟨_, _, Or.inr rfl, rfl, by simp, rfl, rfl⟩
      | terminate s256 =>
          exact ⟨_, _, Or.inr rfl, rfl, fun _ _ => rfl, rfl, rfl⟩
  | onFile file handle =>
      obtain ⟨hcontent, hfp, -⟩ := hholds
      obtain ⟨content, version⟩ := file
      simp only at hcontent
      subst hcontent
      cases request with
      | status s256 => exact absurd rfl (hwrite s256)
      | register s256 entry =>
          obtain ⟨file, handle', hwritten, hcontent, -, hmap, hfp', -⟩ :=
            write_leaves place recorded version handle
              (fun map => missionRegister map s256 entry now)
              fun hdirty _ _ hfound => sub_of_register_not_dirty hdirty hfound
          simp only [HostRegistry.call, FileMissionRegistry.call, hwritten]
          exact ⟨_, _, Or.inl rfl, rfl, by simp, hcontent, hfp', hmap⟩
      | terminate s256 =>
          obtain ⟨file, handle', hwritten, hcontent, -, hmap, hfp', -⟩ :=
            write_leaves place recorded version handle
              (fun map => missionTerminate map s256 now)
              fun hdirty _ _ hfound => sub_of_terminate_not_dirty hdirty hfound
          simp only [HostRegistry.call, FileMissionRegistry.call, hwritten]
          exact ⟨_, _, Or.inl rfl, rfl, fun _ _ => rfl, hcontent, hfp', hmap⟩

end HostRegistry

/-! ## What a host keeps -/

/-- The Mission whose termination is in the registry and not yet in the
ledger. -/
def MissionTask.ended : MissionTask → Option String
  | .persisted _ s256 _ _ => some s256
  | _ => none

/-- The Mission a termination has read and not yet marked. -/
def MissionTask.resolvedOf : MissionTask → Option String
  | .resolved _ s256 _ _ => some s256
  | _ => none

/-- A task read the clock before now, approves a hash's own Mission, and
records a Mission only under an action with a scope. -/
def MissionTask.Sound (entryOf : String → MissionEntry) (clock : UInt64) :
    MissionTask → Prop
  | .idle => True
  | .deciding _ now => now ≤ clock
  | .bound entry =>
      entry.mission.isSome → (scopeForAction entry.action).isSome
  | .approving _ s256 mission now => now ≤ clock ∧ mission = entryOf s256
  | .approved _ s256 mission now => now ≤ clock ∧ mission = entryOf s256
  | .registering s256 mission now => now ≤ clock ∧ mission = entryOf s256
  | .terminating _ _ now => now ≤ clock
  | .resolved _ _ _ now => now ≤ clock
  | .persisted _ _ _ now => now ≤ clock

theorem MissionTask.Sound.later {task : MissionTask} {clock later : UInt64}
    (hsound : task.Sound entryOf clock) (hclock : clock ≤ later) :
    task.Sound entryOf later := by
  cases task with
  | idle => trivial
  | bound entry => exact hsound
  | deciding request now => exact UInt64.le_trans hsound hclock
  | terminating columns s256 now => exact UInt64.le_trans hsound hclock
  | resolved columns s256 mission now => exact UInt64.le_trans hsound hclock
  | persisted columns s256 mission now => exact UInt64.le_trans hsound hclock
  | approving columns s256 mission now =>
      exact ⟨UInt64.le_trans hsound.1 hclock, hsound.2⟩
  | approved columns s256 mission now =>
      exact ⟨UInt64.le_trans hsound.1 hclock, hsound.2⟩
  | registering s256 mission now =>
      exact ⟨UInt64.le_trans hsound.1 hclock, hsound.2⟩

namespace MissionHost

variable {T : Type}

def Ended (host : MissionHost T) (s256 : String) : Prop :=
  (∃ entry ∈ host.ledger, entry.Terminates s256) ∨
    ∃ task, (host.tasks task).ended = some s256

def Resolved (host : MissionHost T) (s256 : String) : Prop :=
  ∃ task, (host.tasks task).resolvedOf = some s256

/-- An unexpired Mission in the registry: file and handle agree on it, it is
terminated once its termination is past the registry, and on record once a
termination has found it. -/
structure LiveAt (host : MissionHost T) (recorded shown : Missions)
    (s256 : String) : Prop where
  agree : recorded[s256]? = shown[s256]?
  ended : host.Ended s256 →
    ∃ entry, recorded[s256]? = some entry ∧ entry.terminated = true
  resolved : host.Resolved s256 → recorded[s256]?.isSome

structure Kept (place : MapPath MissionEntry)
    (entryOf : String → MissionEntry) (host : MissionHost T) : Prop where
  registry : ∃ recorded shown, host.registry.Holds place recorded shown ∧
    SameEntries entryOf recorded ∧
    ∀ s256, host.clock < (entryOf s256).expiry →
      host.LiveAt recorded shown s256
  tasks : ∀ task, (host.tasks task).Sound entryOf host.clock

/-- A step that leaves the registry. -/
theorem Kept.of_registry_eq {host host' : MissionHost T}
    (hkept : host.Kept place entryOf)
    (hregistry : host'.registry = host.registry)
    (hclock : host.clock ≤ host'.clock)
    (htasks : ∀ task, (host'.tasks task).Sound entryOf host'.clock)
    (hended : ∀ s256, host'.Ended s256 → host.Ended s256)
    (hresolved : ∀ s256, host'.Resolved s256 → host.Resolved s256 ∨
      ∃ entry, host.registry.status place s256 = .ok (some entry)) :
    host'.Kept place entryOf := by
  obtain ⟨recorded, shown, hholds, hsame, hlive⟩ := hkept.registry
  refine ⟨⟨recorded, shown, by rwa [hregistry], hsame, ?_⟩, htasks⟩
  intro s256 hunexpired
  have hbefore := hlive s256 (UInt64.lt_of_le_of_lt hclock hunexpired)
  refine ⟨hbefore.agree, fun h => hbefore.ended (hended s256 h), ?_⟩
  intro h
  rcases hresolved s256 h with hold | ⟨entry, hstatus⟩
  · exact hbefore.resolved hold
  · rw [HostRegistry.status, hholds.view, Except.map, Except.ok.injEq]
      at hstatus
    rw [hbefore.agree, hstatus]
    rfl

/-- What a write leaves of an unexpired terminated Mission. -/
theorem updatedAt_terminated {s256 : String} {now : UInt64}
    {entry : MissionEntry} (hterminated : entry.terminated = true)
    (request : RegistryCall) :
    ∃ entry', updatedAt s256 now (some entry) request = some entry' ∧
      entry'.terminated = true := by
  cases request with
  | status other => exact ⟨entry, rfl, hterminated⟩
  | register other new =>
      refine ⟨entry, ?_, hterminated⟩
      unfold updatedAt
      simp
  | terminate other =>
      unfold updatedAt
      by_cases hother : other = s256
      · exact ⟨{ entry with terminated := true }, by simp [hother], rfl⟩
      · exact ⟨entry, by simp [hother], hterminated⟩

theorem updatedAt_isSome {s256 : String} {now : UInt64}
    {found : Option MissionEntry} (hfound : found.isSome)
    (request : RegistryCall) :
    (updatedAt s256 now found request).isSome := by
  obtain ⟨entry, rfl⟩ := Option.isSome_iff_exists.mp hfound
  cases request with
  | status other => rfl
  | register other new =>
      unfold updatedAt
      simp
  | terminate other =>
      unfold updatedAt
      by_cases hother : other = s256
      · simp [hother]
      · simp [hother]

/-- A step that writes to the registry. -/
theorem Kept.of_write {host host' : MissionHost T} {now : UInt64}
    {request : RegistryCall} (hkept : host.Kept place entryOf)
    (hregistry : host'.registry =
      (host.registry.call place now request).1)
    (hclock : host'.clock = host.clock) (hnow : now ≤ host.clock)
    (hwrite : ∀ s256, request ≠ .status s256)
    (hown : ∀ s256 entry, request = .register s256 entry →
      entry = entryOf s256)
    (htasks : ∀ task, (host'.tasks task).Sound entryOf host'.clock)
    (hended : ∀ s256, host'.Ended s256 → host.Ended s256 ∨
      (request = .terminate s256 ∧ host.Resolved s256))
    (hresolved : ∀ s256, host'.Resolved s256 → host.Resolved s256) :
    host'.Kept place entryOf := by
  obtain ⟨recorded, shown, hholds, hsame, hlive⟩ := hkept.registry
  obtain ⟨saved, result, hsaved, -, -, hholds'⟩ := hholds.call now hwrite
  have hsavedSame : SameEntries entryOf saved := by
    rcases hsaved with rfl | rfl
    · exact hsame.of_saved hown
    · exact hsame.of_call hown
  refine ⟨⟨saved, _, by rwa [hregistry], hsavedSame, ?_⟩, htasks⟩
  intro s256 hunexpired
  rw [hclock] at hunexpired
  have hbefore := hlive s256 hunexpired
  have hnow := UInt64.lt_of_le_of_lt hnow hunexpired
  have hcalled : (MemoryMissionRegistry.call recorded now request).1[s256]? =
      _ := call_at hsame hnow hown
  have hat : saved[s256]? = updatedAt s256 now recorded[s256]? request := by
    rcases hsaved with rfl | rfl
    · exact saved_at hsame hnow hown
    · exact hcalled
  refine ⟨hat.trans hcalled.symm, ?_, ?_⟩
  · intro h
    rw [hat]
    rcases hended s256 h with hold | ⟨rfl, hheld⟩
    · obtain ⟨entry, hentry, hterminated⟩ := hbefore.ended hold
      rw [hentry]
      exact updatedAt_terminated hterminated request
    · obtain ⟨entry, hentry⟩ :=
        Option.isSome_iff_exists.mp (hbefore.resolved hheld)
      exact ⟨{ entry with terminated := true },
        by simp [updatedAt, hentry], rfl⟩
  · intro h
    rw [hat]
    exact updatedAt_isSome (hbefore.resolved (hresolved s256 h)) request

/-! ## Steps -/

variable [DecidableEq T]

theorem exists_of_update {tasks : T → MissionTask} {task : T}
    {new : MissionTask} {names : MissionTask → Option String} {s256 : String}
    (h : ∃ other, names (Function.update tasks task new other) = some s256) :
    names new = some s256 ∨ ∃ other, names (tasks other) = some s256 := by
  obtain ⟨other, hother⟩ := h
  by_cases heq : other = task
  · subst heq
    rw [Function.update_self] at hother
    exact Or.inl hother
  · rw [Function.update_of_ne heq] at hother
    exact Or.inr ⟨other, hother⟩

theorem sound_update {tasks : T → MissionTask} {task : T}
    {new : MissionTask} {clock : UInt64}
    (htasks : ∀ other, (tasks other).Sound entryOf clock)
    (hnew : new.Sound entryOf clock) (other : T) :
    (Function.update tasks task new other).Sound entryOf clock := by
  by_cases heq : other = task
  · subst heq
    rwa [Function.update_self]
  · rw [Function.update_of_ne heq]
    exact htasks other

/-- A task goes on without a write to the registry. -/
theorem Kept.goes_on {host : MissionHost T} (hkept : host.Kept place entryOf)
    (task : T) {new : MissionTask} {ledger : List Entry}
    (hsound : new.Sound entryOf host.clock) (hended : new.ended = none)
    (hledger : ∀ s256, (∃ entry ∈ ledger, entry.Terminates s256) →
      host.Ended s256)
    (hresolved : ∀ s256, new.resolvedOf = some s256 →
      ∃ entry, host.registry.status place s256 = .ok (some entry)) :
    Kept place entryOf
      { host with
        ledger := ledger
        tasks := Function.update host.tasks task new } := by
  refine hkept.of_registry_eq rfl (UInt64.le_refl _)
    (sound_update hkept.tasks hsound) ?_ ?_
  · intro s256 h
    rcases h with hrecorded | htask
    · exact hledger s256 hrecorded
    · rcases exists_of_update htask with hnew | hold
      · rw [hended] at hnew
        cases hnew
      · exact Or.inr hold
  · intro s256 h
    rcases exists_of_update h with hnew | hold
    · exact Or.inr (hresolved s256 hnew)
    · exact Or.inl hold

omit [DecidableEq T] in
theorem ended_of_append {host : MissionHost T} {entry : Entry} {s256 : String}
    (h : ∃ other ∈ append host.ledger entry, other.Terminates s256) :
    host.Ended s256 ∨ entry.Terminates s256 := by
  obtain ⟨other, hmem, hterminates⟩ := h
  rcases List.mem_append.mp hmem with hold | hnew
  · exact Or.inl (Or.inl ⟨other, hold, hterminates⟩)
  · rw [List.mem_singleton] at hnew
    subst hnew
    exact Or.inr hterminates

/-- What settling leaves of an entry. -/
theorem settle_eq_ok {status : String → MissionStatus} {entry settled : Entry}
    (hsettle : settle status entry = .ok settled) :
    settled.mission = entry.mission ∧ settled.action = entry.action := by
  rcases settle_cases hsettle with rfl | ⟨reasons, rfl⟩
  · exact ⟨rfl, rfl⟩
  · exact ⟨rfl, rfl⟩

/-- A record of a decision under a Mission is none of a termination. -/
theorem not_terminates_of_scope {entry : Entry}
    (hscope : entry.mission.isSome → (scopeForAction entry.action).isSome)
    (s256 : String) : ¬ entry.Terminates s256 := by
  rintro ⟨haction, hmission⟩
  rw [Option.map_eq_some_iff] at hmission
  obtain ⟨reference, hreference, -⟩ := hmission
  rw [hreference, haction] at hscope
  exact absurd (hscope rfl) (by decide)

theorem sound_bound {request : DecisionRequest} {registry : HostRegistry}
    {now clock : UInt64} :
    (MissionTask.bound (request.decided
      (bindMission (registry.status place) request.dir request.required
        request.subjectId request.action request.context now))).Sound
      entryOf clock := by
  intro hmission
  cases hbind : bindMission (registry.status place) request.dir
      request.required request.subjectId request.action request.context now with
  | none =>
      rw [hbind] at hmission
      cases hmission
  | deny errors =>
      rw [hbind] at hmission
      cases hmission
  | ok reference =>
      obtain ⟨mission, hbound⟩ := boundMission_of_bindMission hbind
      obtain ⟨entry, -, -, -, hscope⟩ := status_of_boundMission hbound
      exact hscope

theorem Kept.step {host : MissionHost T} (hkept : host.Kept place entryOf)
    {action : HostStep T} (horderly : host.Orderly entryOf action) :
    (host.step place action).Kept place entryOf := by
  cases action with
  | tick now =>
      exact hkept.of_registry_eq rfl horderly
        (fun task => (hkept.tasks task).later horderly) (fun _ h => h)
        fun _ h => Or.inl h
  | start task request =>
      have hledger : ∀ s256, (∃ entry ∈ host.ledger,
          entry.Terminates s256) → host.Ended s256 := fun _ h => Or.inl h
      cases request with
      | decide request =>
          exact hkept.goes_on task (UInt64.le_refl _) rfl hledger
            (by simp [HostRequest.begun, MissionTask.resolvedOf])
      | approve columns s256 mission =>
          exact hkept.goes_on task
            ⟨UInt64.le_refl _, horderly.2 columns s256 mission rfl⟩ rfl
            hledger (by simp [HostRequest.begun, MissionTask.resolvedOf])
      | terminate columns s256 =>
          exact hkept.goes_on task (UInt64.le_refl _) rfl hledger
            (by simp [HostRequest.begun, MissionTask.resolvedOf])
  | advance task lands =>
      have hledger : ∀ s256, (∃ entry ∈ host.ledger,
          entry.Terminates s256) → host.Ended s256 := fun _ h => Or.inl h
      have hidle : (MissionTask.idle).Sound entryOf host.clock := trivial
      have hnone : ∀ s256, MissionTask.idle.resolvedOf = some s256 →
          ∃ entry, host.registry.status place s256 = .ok (some entry) := by
        rintro s256 ⟨⟩
      have hstays := hkept.goes_on task hidle rfl hledger hnone
      have hsound := hkept.tasks task
      unfold MissionHost.step
      simp only
      cases htask : host.tasks task with
      | idle => exact hstays
      | deciding request now =>
          exact hkept.goes_on task sound_bound rfl hledger (by rintro _ ⟨⟩)
      | bound entry =>
          simp only [taskStep]
          cases hsettle : settle (host.registry.status place) entry with
          | error error => exact hstays
          | ok settled =>
              rw [htask] at hsound
              obtain ⟨hmission, haction⟩ := settle_eq_ok hsettle
              have hscope : settled.mission.isSome →
                  (scopeForAction settled.action).isSome := by
                rw [hmission, haction]
                exact hsound
              have hnot := not_terminates_of_scope hscope
              refine hkept.goes_on task hidle rfl ?_ hnone
              intro s256 h
              cases lands with
              | false => exact Or.inl h
              | true =>
                  rcases ended_of_append h with hold | hnew
                  · exact hold
                  · exact absurd hnew (hnot s256)
      | approving columns s256 mission now =>
          rw [htask] at hsound
          simp only [taskStep]
          split
          case h_1 => exact hstays
          case h_2 =>
            split
            case isTrue => exact hstays
            case isFalse =>
              exact hkept.goes_on task hsound rfl hledger (by rintro _ ⟨⟩)
      | approved columns s256 mission now =>
          rw [htask] at hsound
          cases lands with
          | false => exact hstays
          | true =>
              refine hkept.goes_on task hsound rfl ?_ (by rintro _ ⟨⟩)
              intro other h
              rcases ended_of_append h with hold | ⟨haction, -⟩
              · exact hold
              · exact absurd haction (by simp [missionEntry])
      | registering s256 mission now =>
          rw [htask] at hsound
          refine hkept.of_write rfl rfl hsound.1 (by simp) ?_
            (sound_update hkept.tasks hidle) ?_ ?_
          · rintro _ _ ⟨⟩
            exact hsound.2
          · intro other h
            left
            rcases h with hrecorded | h
            · exact Or.inl hrecorded
            · rcases exists_of_update h with hnew | hold
              · cases hnew
              · exact Or.inr hold
          · intro other h
            rcases exists_of_update h with hnew | hold
            · cases hnew
            · exact hold
      | terminating columns s256 now =>
          rw [htask] at hsound
          simp only [taskStep]
          split
          case h_2 => exact hstays
          case h_1 mission hstatus =>
            refine hkept.goes_on task hsound rfl hledger ?_
            rintro _ ⟨⟩
            exact ⟨mission, hstatus⟩
      | resolved columns s256 mission now =>
          rw [htask] at hsound
          have hheld : host.Resolved s256 := ⟨task, by rw [htask]; rfl⟩
          have hwrite : ∀ other, RegistryCall.terminate s256 ≠
              .status other := by simp
          obtain ⟨recorded, shown, hholds, -⟩ := hkept.registry
          obtain ⟨saved, result, -, hcall, hok, -⟩ := hholds.call now hwrite
          rw [hok s256 rfl] at hcall
          simp only [taskStep, hcall]
          refine hkept.of_write rfl rfl hsound hwrite (by rintro _ _ ⟨⟩)
            (sound_update hkept.tasks hsound) ?_ ?_
          · intro other h
            rcases h with hrecorded | h
            · exact Or.inl (Or.inl hrecorded)
            · rcases exists_of_update h with hnew | hold
              · cases hnew
                exact Or.inr ⟨rfl, hheld⟩
              · exact Or.inl (Or.inr hold)
          · intro other h
            rcases exists_of_update h with hnew | hold
            · cases hnew
            · exact hold
      | persisted columns s256 mission now =>
          simp only [taskStep]
          refine hkept.goes_on task hidle rfl ?_ hnone
          intro other h
          cases lands with
          | false => exact Or.inl h
          | true =>
              rcases ended_of_append h with hold | ⟨-, hother⟩
              · exact hold
              · cases hother
                exact Or.inr ⟨task, by rw [htask]; rfl⟩

/-! ## The ledger -/

/-- A decision that would be recorded as an Allow after its Mission's
termination, with the Mission expired, still finds it terminated in the
registry. -/
def SettlesKnown (place : MapPath MissionEntry)
    (entryOf : String → MissionEntry) (host : MissionHost T)
    (action : HostStep T) : Prop :=
  ∀ task entry s256, action = .advance task true →
    host.tasks task = .bound entry → entry.allowedUnder = some s256 →
    (∃ earlier ∈ host.ledger, earlier.Terminates s256) →
    (entryOf s256).expiry ≤ host.clock →
    ∃ found, host.registry.status place s256 = .ok (some found) ∧
      found.terminated = true

omit [DecidableEq T] in
theorem settlesKnown_of_ne {host : MissionHost T} {action : HostStep T}
    (hne : ∀ task entry, action = .advance task true →
      host.tasks task ≠ .bound entry) :
    host.SettlesKnown place entryOf action := by
  intro task entry s256 haction htask
  exact absurd htask (hne task entry haction)

theorem terminationFinal_append {ledger : List Entry} {entry : Entry} :
    TerminationFinal (append ledger entry) ↔ TerminationFinal ledger ∧
      ∀ s256, (∃ earlier ∈ ledger, earlier.Terminates s256) →
        ¬ entry.AllowsUnder s256 := by
  unfold TerminationFinal append
  rw [List.pairwise_append]
  constructor
  · rintro ⟨hledger, -, hcross⟩
    refine ⟨hledger, ?_⟩
    rintro s256 ⟨earlier, hearlier, hterminates⟩
    exact hcross earlier hearlier _ (List.mem_singleton_self _) s256
      hterminates
  · rintro ⟨hledger, hnew⟩
    refine ⟨hledger, List.pairwise_singleton _ _, ?_⟩
    intro earlier hearlier later hlater s256 hterminates
    rw [List.mem_singleton] at hlater
    subst hlater
    exact hnew s256 ⟨earlier, hearlier, hterminates⟩

/-- A record of a Mission's approval or termination is no Allow under it. -/
theorem terminationFinal_append_lifecycle {ledger : List Entry}
    {columns : Entry} {now : UInt64} {approver action s256 : String}
    (haction : action = "Mission.Approve" ∨ action = "Mission.Terminate") :
    TerminationFinal (append ledger
        (missionEntry columns now approver action s256)) ↔
      TerminationFinal ledger := by
  rw [terminationFinal_append, and_iff_left]
  rintro other - ⟨-, happrove, hterminate⟩
  rcases haction with rfl | rfl
  · exact happrove rfl
  · exact hterminate rfl

theorem allowsUnder_of_scope {entry : Entry} {s256 : String}
    (hscope : entry.mission.isSome → (scopeForAction entry.action).isSome)
    (hallowed : entry.allowedUnder = some s256) :
    entry.AllowsUnder s256 := by
  have hmission : entry.mission.isSome := by
    unfold Entry.allowedUnder at hallowed
    split at hallowed
    case isTrue =>
      rw [Option.map_eq_some_iff] at hallowed
      obtain ⟨reference, hreference, -⟩ := hallowed
      rw [hreference]
      rfl
    case isFalse => cases hallowed
  refine ⟨hallowed, ?_, ?_⟩
  · intro haction
    rw [haction] at hscope
    exact absurd (hscope hmission) (by decide)
  · intro haction
    rw [haction] at hscope
    exact absurd (hscope hmission) (by decide)

omit [DecidableEq T] in
/-- While the Mission is unexpired, the registry has its recorded
termination. -/
theorem Kept.status_of_recorded {host : MissionHost T}
    (hkept : host.Kept place entryOf) {s256 : String}
    (hrecorded : ∃ earlier ∈ host.ledger, earlier.Terminates s256)
    (hlive : host.clock < (entryOf s256).expiry) :
    ∃ found, host.registry.status place s256 = .ok (some found) ∧
      found.terminated = true := by
  obtain ⟨recorded, shown, hholds, -, hat⟩ := hkept.registry
  obtain ⟨hagree, hended, -⟩ := hat s256 hlive
  obtain ⟨found, hfound, hterminated⟩ := hended (Or.inl hrecorded)
  refine ⟨found, ?_, hterminated⟩
  rw [HostRegistry.status, hholds.view, Except.map, ← hagree, hfound]

omit [DecidableEq T] in
theorem Kept.status_ok {host : MissionHost T}
    (hkept : host.Kept place entryOf) (s256 : String) :
    ∃ found, host.registry.status place s256 = .ok found := by
  obtain ⟨recorded, shown, hholds, -⟩ := hkept.registry
  exact ⟨shown[s256]?, by rw [HostRegistry.status, hholds.view]; rfl⟩

omit [DecidableEq T] in
theorem settlesKnown_iff {host : MissionHost T} {task : T} {entry : Entry}
    {s256 : String} (htask : host.tasks task = .bound entry)
    (hallowed : entry.allowedUnder = some s256) :
    host.SettlesKnown place entryOf (.advance task true) ↔
      ((∃ earlier ∈ host.ledger, earlier.Terminates s256) →
        (entryOf s256).expiry ≤ host.clock →
        ∃ found, host.registry.status place s256 = .ok (some found) ∧
          found.terminated = true) := by
  constructor
  · intro hknown
    exact hknown task entry s256 rfl htask hallowed
  · rintro hknown _ entry' s256' ⟨⟩ htask' hallowed'
    rw [htask] at htask'
    cases htask'
    rw [hallowed] at hallowed'
    cases hallowed'
    exact hknown

/-- The ledger after a decision's record lands. -/
theorem Kept.ledger_settled {host : MissionHost T}
    (hkept : host.Kept place entryOf) {task : T} {entry : Entry}
    (htask : host.tasks task = .bound entry) :
    TerminationFinal (host.step place (.advance task true)).ledger ↔
      TerminationFinal host.ledger ∧
        host.SettlesKnown place entryOf (.advance task true) := by
  have hscope : entry.mission.isSome →
      (scopeForAction entry.action).isSome := by
    have hsound := hkept.tasks task
    rw [htask] at hsound
    exact hsound
  cases hallowed : entry.allowedUnder with
  | none =>
      have hsettle : settle (host.registry.status place) entry = .ok entry := by
        simp only [settle, hallowed]
      simp only [MissionHost.step, htask, taskStep, hsettle, if_true]
      rw [terminationFinal_append]
      refine and_congr_right fun _ => ⟨fun _ => ?_, fun _ => ?_⟩
      · rintro _ entry' s256 ⟨⟩ htask' hallowed'
        rw [htask] at htask'
        cases htask'
        rw [hallowed] at hallowed'
        cases hallowed'
      · rintro s256 - ⟨hallowed', -⟩
        exact absurd (hallowed.symm.trans hallowed') (by simp)
  | some s256 =>
      rw [settlesKnown_iff htask hallowed]
      obtain ⟨found, hstatus⟩ := hkept.status_ok s256
      by_cases hterminated :
          (found.map MissionEntry.terminated).getD false = true
      · -- settled to a Deny
        have hsettle : settle (host.registry.status place) entry =
            .ok { entry with
              decision := false
              reasons := ["mission " ++ s256 ++
                " was terminated before this decision was recorded"] } := by
          simp only [settle, hallowed, hstatus, hterminated, if_true]
        simp only [MissionHost.step, htask, taskStep, hsettle, if_true]
        rw [terminationFinal_append]
        refine and_congr_right fun _ => ⟨fun _ _ _ => ?_, fun _ => ?_⟩
        · cases found with
          | none => cases hterminated
          | some mission => exact ⟨mission, hstatus, hterminated⟩
        · rintro other - ⟨hdenied, -⟩
          cases hdenied
      · have hsettle : settle (host.registry.status place) entry =
            .ok entry := by
          simp only [settle, hallowed, hstatus, hterminated,
            Bool.false_eq_true, if_false]
        have hunknown : ¬ ∃ mission, host.registry.status place s256 =
            .ok (some mission) ∧ mission.terminated = true := by
          rintro ⟨mission, hmission, hyes⟩
          rw [hstatus, Except.ok.injEq] at hmission
          rw [hmission] at hterminated
          exact hterminated hyes
        simp only [MissionHost.step, htask, taskStep, hsettle, if_true]
        rw [terminationFinal_append]
        refine and_congr_right fun _ => ⟨fun hnew hrecorded => ?_,
          fun hknown other hrecorded hallows => ?_⟩
        · exact absurd (allowsUnder_of_scope hscope hallowed)
            (hnew s256 hrecorded)
        · have hother : other = s256 :=
            Option.some.inj (hallows.1.symm.trans hallowed)
          subst hother
          by_cases hlive : host.clock < (entryOf other).expiry
          · exact hunknown (hkept.status_of_recorded hrecorded hlive)
          · exact hunknown (hknown hrecorded (UInt64.not_lt.mp hlive))

/-- What a step does to the finality of terminations. -/
theorem Kept.ledger_step {host : MissionHost T}
    (hkept : host.Kept place entryOf) (action : HostStep T) :
    TerminationFinal (host.step place action).ledger ↔
      TerminationFinal host.ledger ∧
        host.SettlesKnown place entryOf action := by
  cases action with
  | tick now =>
      exact (and_iff_left (settlesKnown_of_ne (by rintro _ _ ⟨⟩))).symm
  | start task request =>
      exact (and_iff_left (settlesKnown_of_ne (by rintro _ _ ⟨⟩))).symm
  | advance task lands =>
      -- only the recording of a decision can add an Allow
      have hother : (∀ entry, host.tasks task ≠ .bound entry) →
          (TerminationFinal (host.step place (.advance task lands)).ledger ↔
            TerminationFinal host.ledger) →
          (TerminationFinal (host.step place (.advance task lands)).ledger ↔
            TerminationFinal host.ledger ∧
              host.SettlesKnown place entryOf (.advance task lands)) := by
        intro hne hledger
        rw [and_iff_left (settlesKnown_of_ne ?_), hledger]
        rintro _ entry ⟨⟩
        exact hne entry
      cases htask : host.tasks task with
      | bound entry =>
          cases lands with
          | true => exact hkept.ledger_settled htask
          | false =>
              rw [and_iff_left (settlesKnown_of_ne (by rintro _ _ ⟨⟩))]
              simp only [MissionHost.step, htask, taskStep]
              split <;> rfl
      | idle =>
          apply hother (by simp [htask])
          simp only [MissionHost.step, htask, taskStep]
      | deciding request now =>
          apply hother (by simp [htask])
          simp only [MissionHost.step, htask, taskStep]
      | approving columns s256 mission now =>
          apply hother (by simp [htask])
          simp only [MissionHost.step, htask, taskStep]
          split
          case h_1 => rfl
          case h_2 => split <;> rfl
      | approved columns s256 mission now =>
          apply hother (by simp [htask])
          simp only [MissionHost.step, htask, taskStep]
          cases lands with
          | false => rfl
          | true => exact terminationFinal_append_lifecycle (Or.inl rfl)
      | registering s256 mission now =>
          apply hother (by simp [htask])
          simp only [MissionHost.step, htask, taskStep]
      | terminating columns s256 now =>
          apply hother (by simp [htask])
          simp only [MissionHost.step, htask, taskStep]
          split <;> rfl
      | resolved columns s256 mission now =>
          apply hother (by simp [htask])
          simp only [MissionHost.step, htask, taskStep]
          split <;> rfl
      | persisted columns s256 mission now =>
          apply hother (by simp [htask])
          simp only [MissionHost.step, htask, taskStep]
          cases lands with
          | false => rfl
          | true => exact terminationFinal_append_lifecycle (Or.inr rfl)

/-! ## Runs -/

/-- A host with nothing under way, its registry just opened, and a ledger whose
terminations the registry knows. -/
structure Ready (place : MapPath MissionEntry)
    (entryOf : String → MissionEntry) (host : MissionHost T) : Prop where
  idle : ∀ task, host.tasks task = .idle
  registry : ∃ recorded, host.registry.Holds place recorded recorded ∧
    SameEntries entryOf recorded ∧
    ∀ s256, host.clock < (entryOf s256).expiry →
      (∃ entry ∈ host.ledger, entry.Terminates s256) →
      ∃ entry, recorded[s256]? = some entry ∧ entry.terminated = true
  ledger : TerminationFinal host.ledger

omit [DecidableEq T] in
theorem Ready.kept {host : MissionHost T}
    (hready : host.Ready place entryOf) : host.Kept place entryOf := by
  obtain ⟨recorded, hholds, hsame, hlive⟩ := hready.registry
  refine ⟨⟨recorded, recorded, hholds, hsame, ?_⟩, ?_⟩
  · intro s256 hunexpired
    refine ⟨rfl, ?_, ?_⟩
    · rintro (hrecorded | ⟨task, htask⟩)
      · exact hlive s256 hunexpired hrecorded
      · rw [hready.idle task] at htask
        cases htask
    · rintro ⟨task, htask⟩
      rw [hready.idle task] at htask
      cases htask
  · intro task
    rw [hready.idle task]
    trivial

theorem Kept.ledger_run {host : MissionHost T}
    (hkept : host.Kept place entryOf) {actions : List (HostStep T)}
    (horderly : StateRun.Admitted (MissionHost.step place)
      (Orderly entryOf) host actions) :
    TerminationFinal (StateRun.run (MissionHost.step place) host
        actions).ledger ↔
      TerminationFinal host.ledger ∧
        StateRun.Admitted (MissionHost.step place)
          (SettlesKnown place entryOf) host actions := by
  induction actions generalizing host with
  | nil => exact (and_iff_left trivial).symm
  | cons action rest ih =>
      obtain ⟨haction, hrest⟩ := horderly
      rw [StateRun.run_cons, ih (hkept.step haction) hrest,
        hkept.ledger_step action, StateRun.Admitted, and_assoc]

/-- No Allow under a Mission follows the record of its termination, exactly
when every Allow whose Mission has a recorded termination and has expired
still finds it terminated in the registry. -/
theorem termination_final_iff (place : MapPath MissionEntry)
    (entryOf : String → MissionEntry) (start : MissionHost T)
    (hstart : start.Ready place entryOf) (actions : List (HostStep T))
    (horderly : StateRun.Admitted (MissionHost.step place)
      (Orderly entryOf) start actions) :
    TerminationFinal (StateRun.run (MissionHost.step place) start
        actions).ledger ↔
      StateRun.Admitted (MissionHost.step place)
        (SettlesKnown place entryOf) start actions := by
  rw [hstart.kept.ledger_run horderly]
  exact and_iff_right hstart.ledger

/-! ## An Allow after the termination -/

def sampleEntryOf (s256 : String) : MissionEntry :=
  { approver := "corp"
    expiry := if s256 = "m" then 1000 else 5000
    agent := "agent1"
    approvedTools := ["read"] }

def samplePrincipal (id : String) : Graph.PrincipalRec :=
  { id := id
    kind := "Human"
    tenant := "A"
    expiry := 10000
    scopes := {"read"} }

def sampleDirectory : Graph.Directory :=
  { principals := ((∅ : StringMap Graph.PrincipalRec).insert "corp"
      (samplePrincipal "corp")).insert "agent1" (samplePrincipal "agent1") }

/-- A Read by the Mission's agent under it, which the policies allow. -/
def sampleRequest : DecisionRequest :=
  { dir := sampleDirectory
    required := false
    subjectId := "agent1"
    action := "Read"
    context := .object [("mission", .object
      [("approver", .string "corp"), ("s256", .string "m")])]
    check := fun _ => { decision := true } }

def sampleHost : MissionHost (Fin 3) :=
  { registry := .inMemory ((∅ : Missions).insert "m" (sampleEntryOf "m"))
    ledger := []
    clock := 10
    tasks := fun _ => .idle }

theorem sampleHost_status (place : MapPath MissionEntry) :
    sampleHost.registry.status place "m" = .ok (some (sampleEntryOf "m")) := by
  simp [sampleHost, HostRegistry.status, HostRegistry.view, Except.map]

theorem sampleDirectory_principals (id : String) :
    sampleDirectory.principals[id]? =
      if "agent1" = id then some (samplePrincipal "agent1")
      else if "corp" = id then some (samplePrincipal "corp") else none := by
  simp [sampleDirectory, Std.ExtTreeMap.getElem?_insert]

theorem sampleDirectory_revoked :
    sampleDirectory.revoked "corp" = false := by
  simp [Graph.Directory.revoked, Graph.Directory.ancestorsOf,
    Graph.Directory.ancestorsFrom, sampleDirectory_principals,
    samplePrincipal]

theorem sample_bound (place : MapPath MissionEntry) :
    bindMission (sampleHost.registry.status place) sampleDirectory false
      "agent1" "Read" sampleRequest.context 10 = .ok ⟨"corp", "m"⟩ := by
  have hnamed : namedMission (.object [("approver", .string "corp"),
      ("s256", .string "m")]) = .ok ⟨"corp", "m"⟩ := rfl
  have hgranted : grantedScope ⟨"corp", "m"⟩
      (.ok (some (sampleEntryOf "m"))) "agent1" "Read" 10 =
        .ok (sampleEntryOf "m", "read") := rfl
  have hstands : approverStands sampleDirectory ⟨"corp", "m"⟩
      (sampleEntryOf "m") "read" "agent1" 10 = .ok () := by
    simp [approverStands, sampleDirectory_principals, sampleEntryOf,
      sampleDirectory_revoked, samplePrincipal]
  have hbound : boundMission (sampleHost.registry.status place)
      sampleDirectory "agent1" "Read" (.object [("approver", .string "corp"),
        ("s256", .string "m")]) 10 = .ok ⟨"corp", "m"⟩ := by
    simp only [boundMission, hnamed, bind, Except.bind, sampleHost_status,
      hgranted, hstands]
    rfl
  have hcontext : (sampleRequest.context.get "mission").filter
      (fun value => !value.isNull) = some (.object
        [("approver", .string "corp"), ("s256", .string "m")]) := rfl
  simp only [bindMission, hcontext, hbound]

/-- A decision binds Mission "m" and a termination finds it; "m" expires and
the registration of another Mission drops it; the termination marks nothing
and is recorded; then the decision is. -/
def sampleSteps : List (HostStep (Fin 3)) :=
  [.start 0 (.decide sampleRequest), .advance 0 true,
    .start 1 (.terminate {} "m"), .advance 1 true,
    .tick 2000,
    .start 2 (.approve {} "other" (sampleEntryOf "other")),
    .advance 2 true, .advance 2 true, .advance 2 true,
    .advance 1 true, .advance 1 true, .advance 0 true]

/-- A host of three tasks. -/
def hostOf (registry : HostRegistry) (ledger : List Entry) (clock : UInt64)
    (first second third : MissionTask) : MissionHost (Fin 3) :=
  { registry := registry
    ledger := ledger
    clock := clock
    tasks := ![first, second, third] }

section HostOf

variable {registry registry' : HostRegistry} {ledger ledger' : List Entry}
  {clock : UInt64} {first second third new : MissionTask} {lands : Bool}

theorem hostOf_start (request : HostRequest) :
    (hostOf registry ledger clock first second third).step place
        (.start 0 request) =
      hostOf registry ledger clock (request.begun clock) second third ∧
    (hostOf registry ledger clock first second third).step place
        (.start 1 request) =
      hostOf registry ledger clock first (request.begun clock) third ∧
    (hostOf registry ledger clock first second third).step place
        (.start 2 request) =
      hostOf registry ledger clock first second (request.begun clock) := by
  simp only [hostOf, MissionHost.step, MissionHost.mk.injEq, true_and]
  refine ⟨?_, ?_, ?_⟩
  all_goals
    funext task
    fin_cases task <;> rfl

theorem hostOf_tick (now : UInt64) :
    (hostOf registry ledger clock first second third).step place
        (.tick now) =
      hostOf registry ledger now first second third := rfl

theorem hostOf_advance {task : Fin 3} {tasks : Fin 3 → MissionTask}
    (hstep : taskStep place registry ledger lands
      ((![first, second, third] : Fin 3 → MissionTask) task) =
        (registry', ledger', new))
    (hupdate : Function.update ![first, second, third] task new = tasks) :
    (hostOf registry ledger clock first second third).step place
        (.advance task lands) =
      ⟨registry', ledger', clock, tasks⟩ := by
  subst hupdate
  simp only [hostOf, MissionHost.step, hstep]

theorem hostOf_advance_first
    (hstep : taskStep place registry ledger lands first =
      (registry', ledger', new)) :
    (hostOf registry ledger clock first second third).step place
        (.advance 0 lands) =
      hostOf registry' ledger' clock new second third := by
  apply hostOf_advance hstep
  funext task
  fin_cases task <;> rfl

theorem hostOf_advance_second
    (hstep : taskStep place registry ledger lands second =
      (registry', ledger', new)) :
    (hostOf registry ledger clock first second third).step place
        (.advance 1 lands) =
      hostOf registry' ledger' clock first new third := by
  apply hostOf_advance hstep
  funext task
  fin_cases task <;> rfl

theorem hostOf_advance_third
    (hstep : taskStep place registry ledger lands third =
      (registry', ledger', new)) :
    (hostOf registry ledger clock first second third).step place
        (.advance 2 lands) =
      hostOf registry' ledger' clock first second new := by
  apply hostOf_advance hstep
  funext task
  fin_cases task <;> rfl

end HostOf

theorem sampleMissions_register :
    missionRegister ((∅ : Missions).insert "m" (sampleEntryOf "m")) "other"
        (sampleEntryOf "other") 2000 =
      ((∅ : Missions).insert "other" (sampleEntryOf "other"), .ok (),
        true) := by
  have hkept : retainMissions ((∅ : Missions).insert "m" (sampleEntryOf "m"))
      2000 = ∅ := by
    apply Std.ExtTreeMap.ext_getElem?
    intro key
    have hdue : missionEntryRetained (sampleEntryOf "m") 2000 = false := by
      decide
    simp only [getElem?_retainMissions, Std.ExtTreeMap.getElem?_insert]
    split <;> simp [hdue]
  have hfuture : ¬ (sampleEntryOf "other").expiry ≤ 2000 := by decide
  simp [missionRegister, hkept, hfuture]

theorem sampleSteps_ledger (place : MapPath MissionEntry) :
    (StateRun.run (MissionHost.step place) sampleHost sampleSteps).ledger =
      append (append (append []
        (missionEntry {} 2000 "corp" "Mission.Approve" "other"))
        (missionEntry {} 10 "corp" "Mission.Terminate" "m"))
        (sampleRequest.decided (.ok ⟨"corp", "m"⟩)) := by
  have hother : sampleHost.registry.status place "other" = .ok none := by
    simp [sampleHost, HostRegistry.status, HostRegistry.view, Except.map]
  -- the registry once "m" is dropped, and once the termination swept it
  let after : HostRegistry := .inMemory ((∅ : Missions).insert "other"
    (sampleEntryOf "other"))
  let swept : HostRegistry :=
    (after.call place 10 (.terminate "m")).1
  let approval : List Entry :=
    append [] (missionEntry {} 2000 "corp" "Mission.Approve" "other")
  let termination : List Entry :=
    append approval (missionEntry {} 10 "corp" "Mission.Terminate" "m")
  have hswept : swept.status place "m" = .ok none := by
    simp [swept, after, HostRegistry.call, MemoryMissionRegistry.call,
      missionTerminate, HostRegistry.status, HostRegistry.view, Except.map,
      getElem?_retainMissions, getElem?_markTerminated]
  have hdecided : taskStep place sampleHost.registry [] true
      (.deciding sampleRequest 10) = (sampleHost.registry, [],
        .bound (sampleRequest.decided (.ok ⟨"corp", "m"⟩))) := by
    have hbound : bindMission (sampleHost.registry.status place)
        sampleRequest.dir sampleRequest.required sampleRequest.subjectId
        sampleRequest.action sampleRequest.context 10 = .ok ⟨"corp", "m"⟩ :=
      sample_bound place
    simp only [taskStep, hbound]
  have hresolved : taskStep place sampleHost.registry [] true
      (.terminating {} "m" 10) = (sampleHost.registry, [],
        .resolved {} "m" (sampleEntryOf "m") 10) := by
    simp only [taskStep, sampleHost_status]
  have happroved : taskStep place sampleHost.registry [] true
      (.approving {} "other" (sampleEntryOf "other") 2000) =
        (sampleHost.registry, [],
          .approved {} "other" (sampleEntryOf "other") 2000) := by
    simp only [taskStep, hother]
    rfl
  have hregistered : taskStep place sampleHost.registry approval true
      (.registering "other" (sampleEntryOf "other") 2000) =
        (after, approval, .idle) := by
    simp only [taskStep, sampleHost, HostRegistry.call,
      MemoryMissionRegistry.call, sampleMissions_register, after]
  have hrecorded : taskStep place sampleHost.registry [] true
      (.approved {} "other" (sampleEntryOf "other") 2000) =
        (sampleHost.registry, approval,
          .registering "other" (sampleEntryOf "other") 2000) := rfl
  have hmarked : taskStep place after approval true
      (.resolved {} "m" (sampleEntryOf "m") 10) = (swept, approval,
        .persisted {} "m" (sampleEntryOf "m") 10) := rfl
  have hterminated : taskStep place swept approval true
      (.persisted {} "m" (sampleEntryOf "m") 10) =
        (swept, termination, .idle) := rfl
  have hsettled : taskStep place swept termination true
      (.bound (sampleRequest.decided (.ok ⟨"corp", "m"⟩))) = (swept,
        append termination (sampleRequest.decided (.ok ⟨"corp", "m"⟩)),
        .idle) := by
    have hallowed : (sampleRequest.decided
        (.ok ⟨"corp", "m"⟩)).allowedUnder = some "m" := rfl
    simp only [taskStep, settle, hallowed, hswept]
    rfl
  have hstart : sampleHost =
      hostOf sampleHost.registry [] 10 .idle .idle .idle := by
    unfold hostOf sampleHost
    simp only [MissionHost.mk.injEq, true_and]
    funext task
    fin_cases task <;> rfl
  rw [hstart]
  simp only [sampleSteps, StateRun.run_cons, StateRun.run_nil, hostOf_start,
    hostOf_tick, HostRequest.begun, hostOf_advance_first hdecided,
    hostOf_advance_second hresolved, hostOf_advance_third happroved,
    hostOf_advance_third hrecorded, hostOf_advance_third hregistered,
    hostOf_advance_second hmarked, hostOf_advance_second hterminated,
    hostOf_advance_first hsettled]
  rfl

theorem sampleHost_ready (place : MapPath MissionEntry) :
    sampleHost.Ready place sampleEntryOf where
  idle _ := rfl
  registry := by
    refine ⟨_, ⟨rfl, rfl⟩, ?_, ?_⟩
    · intro s256 entry hfound
      simp only [Std.ExtTreeMap.getElem?_insert,
        Std.LawfulEqCmp.compare_eq_iff_eq] at hfound
      split at hfound
      case isTrue heq =>
        cases hfound
        rw [← heq]
        exact ⟨false, rfl⟩
      case isFalse => simp at hfound
    · rintro s256 - ⟨entry, hmem, -⟩
      cases hmem
  ledger := List.Pairwise.nil

theorem sampleSteps_orderly (place : MapPath MissionEntry) :
    StateRun.Admitted (MissionHost.step place) (Orderly sampleEntryOf)
      sampleHost sampleSteps := by
  have htick : (10 : UInt64) ≤ 2000 := by decide
  refine ⟨⟨rfl, ?_⟩, trivial, ⟨rfl, ?_⟩, trivial, htick, ⟨rfl, ?_⟩, trivial,
    trivial, trivial, trivial, trivial, trivial, trivial⟩
  · rintro columns s256 mission ⟨⟩
  · rintro columns s256 mission ⟨⟩
  · rintro columns s256 mission ⟨⟩
    rfl

theorem sampleSteps_not_final (place : MapPath MissionEntry) :
    ¬ TerminationFinal (StateRun.run (MissionHost.step place) sampleHost
      sampleSteps).ledger := by
  rw [sampleSteps_ledger, terminationFinal_append]
  rintro ⟨-, hnone⟩
  apply hnone "m"
  · exact ⟨_, List.mem_append_right _ (List.mem_singleton_self _), rfl, rfl⟩
  · exact ⟨rfl, by decide, by decide⟩

theorem allow_after_termination :
    ¬ ∀ (start : MissionHost (Fin 3)) (actions : List (HostStep (Fin 3))),
      start.Ready RegistryWorld.samplePlace sampleEntryOf →
      StateRun.Admitted (MissionHost.step RegistryWorld.samplePlace)
        (Orderly sampleEntryOf) start actions →
      TerminationFinal (StateRun.run
        (MissionHost.step RegistryWorld.samplePlace) start actions).ledger := by
  intro hall
  exact sampleSteps_not_final _
    (hall _ _ (sampleHost_ready _) (sampleSteps_orderly _))

theorem termination_final_sample :
    ¬ StateRun.Admitted (MissionHost.step RegistryWorld.samplePlace)
      (SettlesKnown RegistryWorld.samplePlace sampleEntryOf) sampleHost
      sampleSteps := by
  rw [← termination_final_iff RegistryWorld.samplePlace sampleEntryOf
    sampleHost (sampleHost_ready _) sampleSteps (sampleSteps_orderly _)]
  exact sampleSteps_not_final _

end MissionHost

end Decern
