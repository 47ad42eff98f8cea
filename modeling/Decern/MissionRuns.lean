import Decern.MissionRegistry
import Decern.StateRun
import Mathlib.Tactic

/-!
# Runs of the Mission registry

Any number of handles on one file, called in any order, beside a registry in
memory that takes the same calls at the same times.  A Mission terminated in
either stays so.
-/

namespace Decern

variable {H : Type}

structure RegistryWorld (H : Type) where
  file : MapFile MissionEntry
  handles : H → Option (CoherentCache MissionEntry)
  memory : Missions
  clock : UInt64

inductive RegistryStep (H : Type) where
  | openHandle (handle : H)
  | call (handle : H) (request : RegistryCall) (now : UInt64)

namespace RegistryWorld

variable (place : MapPath MissionEntry)

/-- What a handle replies, if it is open. -/
def fileReply (world : RegistryWorld H) (handle : H) (request : RegistryCall)
    (now : UInt64) : Option Reply :=
  (world.handles handle).map fun cache =>
    (FileMissionRegistry.call place world.file cache now request).2

def memoryReply (world : RegistryWorld H) (request : RegistryCall)
    (now : UInt64) : Reply :=
  (MemoryMissionRegistry.call world.memory now request).2

variable [DecidableEq H]

def step (world : RegistryWorld H) : RegistryStep H → RegistryWorld H
  | .openHandle handle =>
      match CoherentMap.openFile place world.file with
      | .error _ => world
      | .ok (file, cache) =>
          { world with
            file := file
            handles := Function.update world.handles handle (some cache) }
  | .call handle request now =>
      match world.handles handle with
      | none => world
      | some cache =>
          let after :=
            (FileMissionRegistry.call place world.file cache now request).1
          { file := after.1
            handles := Function.update world.handles handle (some after.2)
            memory := (MemoryMissionRegistry.call world.memory now request).1
            clock := now }

/-- The clock does not go back. -/
def Timely (world : RegistryWorld H) : RegistryStep H → Prop
  | .openHandle _ => True
  | .call _ _ now => world.clock ≤ now

/-- A content hash is registered with its own entry. -/
def Consistent (entryOf : String → MissionEntry)
    (world : RegistryWorld H) (action : RegistryStep H) : Prop :=
  world.Timely action ∧ ∀ handle s256 entry now,
    action = .call handle (.register s256 entry) now → entry = entryOf s256

end RegistryWorld

/-! ## Closed Missions -/

/-- The map's entries are the hashes' own, terminated or not. -/
def SameEntries (entryOf : String → MissionEntry) (map : Missions) : Prop :=
  ∀ (s256 : String) (entry : MissionEntry), map[s256]? = some entry →
    ∃ terminated, entry = { entryOf s256 with terminated := terminated }

/-- A Mission no registration can bring back: on record as terminated, or off
the record and expired. -/
def Closed (map : Missions) (s256 : String) (entry : MissionEntry)
    (clock : UInt64) : Prop :=
  (∃ found, map[s256]? = some found ∧ found.terminated = true ∧
    found.expiry = entry.expiry) ∨
  (map[s256]? = none ∧ entry.expiry ≤ clock)

section Maps

variable {map : Missions} {s256 other : String} {entry : MissionEntry}
  {clock now : UInt64} {entryOf : String → MissionEntry}

theorem Closed.of_retain (hclosed : Closed map s256 entry clock)
    (hclock : clock ≤ now) :
    Closed (retainMissions map now) s256 entry now := by
  rcases hclosed with ⟨found, hfound, hterminated, hexpiry⟩ |
    ⟨hnone, hexpiry⟩
  · cases hretained : missionEntryRetained found now with
    | true =>
        left
        exact ⟨found, getElem?_retainMissions_eq_some.mpr ⟨hfound, hretained⟩,
          hterminated, hexpiry⟩
    | false =>
        right
        rw [← hexpiry]
        constructor
        · simp [getElem?_retainMissions, hfound, hretained]
        · exact expiry_le_of_not_retained hretained
  · right
    constructor
    · simp [getElem?_retainMissions, hnone]
    · exact UInt64.le_trans hexpiry hclock

theorem Closed.of_mark (hclosed : Closed map s256 entry clock) :
    Closed (markTerminated map other) s256 entry clock := by
  rcases hclosed with ⟨found, hfound, hterminated, hexpiry⟩ |
    ⟨hnone, hexpiry⟩
  · left
    by_cases heq : other = s256
    · refine ⟨{ found with terminated := true }, ?_, rfl, hexpiry⟩
      simp [getElem?_markTerminated, heq, hfound]
    · refine ⟨found, ?_, hterminated, hexpiry⟩
      simp [getElem?_markTerminated, heq, hfound]
  · right
    refine ⟨?_, hexpiry⟩
    simp [getElem?_markTerminated, hnone]

theorem Closed.of_terminate (hclosed : Closed map s256 entry clock)
    (hclock : clock ≤ now) :
    Closed (missionTerminate map other now).1 s256 entry now :=
  hclosed.of_mark.of_retain hclock

/-- A terminated Mission is closed, whether the sweep keeps it or not. -/
theorem closed_terminate {found : MissionEntry}
    (hfound : map[s256]? = some found)
    (hexpiry : found.expiry = entry.expiry) :
    Closed (missionTerminate map s256 now).1 s256 entry now := by
  have hmarked : Closed (markTerminated map s256) s256 entry 0 := by
    left
    refine ⟨{ found with terminated := true }, ?_, rfl, hexpiry⟩
    simp [getElem?_markTerminated, hfound]
  exact hmarked.of_retain UInt64.zero_le

/-- What a registration leaves, and whether it succeeds. -/
theorem missionRegister_cases (map : Missions) (s256 : String)
    (entry : MissionEntry) (now : UInt64) :
    (∃ error, missionRegister map s256 entry now =
        (retainMissions map now, .error error, false)) ∨
      (∃ found, (retainMissions map now)[s256]? = some found ∧
        found.terminated = false ∧ missionRegister map s256 entry now =
          (retainMissions map now, .ok (), false)) ∨
      ((retainMissions map now)[s256]? = none ∧ now < entry.expiry ∧
        missionRegister map s256 entry now =
          ((retainMissions map now).insert s256 entry, .ok (), true)) := by
  unfold missionRegister
  cases hfound : (retainMissions map now)[s256]? with
  | some found =>
      cases hterminated : found.terminated with
      | true =>
          left
          exact ⟨terminatedError s256,
            by simp only [hfound, hterminated, if_true]⟩
      | false =>
          right
          left
          exact ⟨found, rfl, hterminated,
            by simp [hfound, hterminated]⟩
  | none =>
      by_cases hexpiry : entry.expiry ≤ now
      · left
        exact ⟨expiredError s256 entry.expiry now,
          by simp only [hfound, if_pos hexpiry]⟩
      · right
        right
        exact ⟨rfl, UInt64.not_le.mp hexpiry,
          by simp only [hfound, if_neg hexpiry]⟩

theorem Closed.of_register {new : MissionEntry}
    (hclosed : Closed map s256 entry clock) (hclock : clock ≤ now)
    (hsame : other = s256 → new.expiry = entry.expiry) :
    Closed (missionRegister map other new now).1 s256 entry now := by
  have hkept := hclosed.of_retain hclock
  rcases missionRegister_cases map other new now with
    ⟨error, heq⟩ | ⟨found, hfound, hactive, heq⟩ | ⟨hnone, hfuture, heq⟩
  · rw [heq]
    exact hkept
  · rw [heq]
    exact hkept
  · rw [heq]
    by_cases hother : other = s256
    · -- a closed Mission has an entry or is expired
      rcases hkept with ⟨found, hfound, -⟩ | ⟨-, hexpired⟩
      · rw [hother, hfound] at hnone
        cases hnone
      · rw [hsame hother] at hfuture
        exact absurd hexpired (UInt64.not_le.mpr hfuture)
    · rcases hkept with ⟨found, hfound, hterminated⟩ | ⟨hgone, hexpired⟩
      · left
        refine ⟨found, ?_, hterminated⟩
        simp [Std.ExtTreeMap.getElem?_insert, hother, hfound]
      · right
        refine ⟨?_, hexpired⟩
        simp [Std.ExtTreeMap.getElem?_insert, hother, hgone]

/-- A closed Mission is not registered again. -/
theorem Closed.register_error (hclosed : Closed map s256 entry clock)
    (hclock : clock ≤ now) :
    ∃ error, (missionRegister map s256 entry now).2.1 = .error error := by
  have hkept := hclosed.of_retain hclock
  rcases missionRegister_cases map s256 entry now with
    ⟨error, heq⟩ | ⟨found, hfound, hactive, heq⟩ | ⟨hnone, hfuture, heq⟩
  · exact ⟨error, by rw [heq]⟩
  · rcases hkept with ⟨same, hsame, hterminated, -⟩ | ⟨hgone, -⟩
    · rw [hfound, Option.some.injEq] at hsame
      rw [hsame, hterminated] at hactive
      cases hactive
    · rw [hfound] at hgone
      cases hgone
  · rcases hkept with ⟨found, hfound, -⟩ | ⟨-, hexpired⟩
    · rw [hfound] at hnone
      cases hnone
    · exact absurd hexpired (UInt64.not_le.mpr hfuture)

theorem Closed.terminated {found : MissionEntry}
    (hclosed : Closed map s256 entry clock)
    (hfound : map[s256]? = some found) : found.terminated = true := by
  rcases hclosed with ⟨same, hsame, hterminated, -⟩ | ⟨hnone, -⟩
  · rw [hfound, Option.some.injEq] at hsame
    rwa [hsame]
  · rw [hfound] at hnone
    cases hnone

theorem SameEntries.of_retain (hsame : SameEntries entryOf map) :
    SameEntries entryOf (retainMissions map now) := by
  intro key found hfound
  exact hsame key found (getElem?_retainMissions_eq_some.mp hfound).1

theorem SameEntries.of_mark (hsame : SameEntries entryOf map) :
    SameEntries entryOf (markTerminated map s256) := by
  intro key found hfound
  rw [getElem?_markTerminated] at hfound
  by_cases heq : s256 = key
  · rw [if_pos heq, Option.map_eq_some_iff] at hfound
    obtain ⟨old, hold, rfl⟩ := hfound
    obtain ⟨terminated, rfl⟩ := hsame key old hold
    exact ⟨true, rfl⟩
  · rw [if_neg heq] at hfound
    exact hsame key found hfound

theorem SameEntries.of_terminate (hsame : SameEntries entryOf map) :
    SameEntries entryOf (missionTerminate map s256 now).1 :=
  hsame.of_mark.of_retain

theorem SameEntries.of_register (hsame : SameEntries entryOf map) :
    SameEntries entryOf
      (missionRegister map s256 (entryOf s256) now).1 := by
  have hkept : SameEntries entryOf (retainMissions map now) :=
    hsame.of_retain
  rcases missionRegister_cases map s256 (entryOf s256) now with
    ⟨error, heq⟩ | ⟨found, hfound, hactive, heq⟩ | ⟨hnone, hfuture, heq⟩
  · rw [heq]
    exact hkept
  · rw [heq]
    exact hkept
  · rw [heq]
    intro key found hfound
    simp only [Std.ExtTreeMap.getElem?_insert,
      Std.LawfulEqCmp.compare_eq_iff_eq] at hfound
    by_cases hkey : s256 = key
    · rw [if_pos hkey] at hfound
      cases hfound
      rw [← hkey]
      exact ⟨_, rfl⟩
    · rw [if_neg hkey] at hfound
      exact hkept key found hfound

end Maps

/-! ## Calls -/

section Calls

variable {place : MapPath MissionEntry} {map : Missions} {version : ℕ}
  {cache : CoherentCache MissionEntry} {now : UInt64} {s256 : String}

/-- A write that saves nothing has at most swept. -/
theorem sub_of_register_not_dirty {entry : MissionEntry}
    (hdirty : (missionRegister map s256 entry now).2.2 = false)
    {key : String} {found : MissionEntry}
    (hfound : (missionRegister map s256 entry now).1[key]? = some found) :
    map[key]? = some found := by
  rcases missionRegister_cases map s256 entry now with
    ⟨error, heq⟩ | ⟨same, hsame, hactive, heq⟩ | ⟨hnone, hfuture, heq⟩
  · rw [heq] at hfound
    exact (getElem?_retainMissions_eq_some.mp hfound).1
  · rw [heq] at hfound
    exact (getElem?_retainMissions_eq_some.mp hfound).1
  · rw [heq] at hdirty
    cases hdirty

theorem markTerminated_of_not_dirty
    (hdirty : (missionTerminate map s256 now).2.2 = false) :
    markTerminated map s256 = map := by
  apply Std.ExtTreeMap.ext_getElem?
  intro key
  rw [getElem?_markTerminated]
  by_cases heq : s256 = key
  · rw [if_pos heq, ← heq]
    unfold missionTerminate at hdirty
    cases hfound : map[s256]? with
    | none => rfl
    | some found =>
        simp only [hfound, Bool.not_eq_false'] at hdirty
        rw [Option.map_some, ← hdirty]
  · rw [if_neg heq]

theorem sub_of_terminate_not_dirty
    (hdirty : (missionTerminate map s256 now).2.2 = false)
    {key : String} {found : MissionEntry}
    (hfound : (missionTerminate map s256 now).1[key]? = some found) :
    map[key]? = some found := by
  unfold missionTerminate at hfound
  simp only at hfound
  rw [markTerminated_of_not_dirty hdirty] at hfound
  exact (getElem?_retainMissions_eq_some.mp hfound).1

/-- The file after a write: as it was, or replaced. -/
def MapFile.Follows (file before : MapFile MissionEntry) : Prop :=
  file = before ∨ before.version < file.version

theorem MapFile.Follows.copyOf {file before : MapFile MissionEntry}
    (hfollows : file.Follows before) (hcopy : cache.CopyOf place before) :
    cache.CopyOf place file := by
  rcases hfollows with rfl | hversion
  · exact hcopy
  · exact hcopy.replaced place hversion

/-- A write leaves the file as it was or with the update's map, and the
handle's copy is of what it leaves. -/
theorem write_leaves (place : MapPath MissionEntry) (map : Missions)
    (version : ℕ) (cache : CoherentCache MissionEntry)
    (update : Missions → Missions × Except StoreError Unit × Bool)
    (hsub : (update map).2.2 = false →
      ∀ (key : String) (found : MissionEntry),
        (update map).1[key]? = some found → map[key]? = some found) :
    ∃ file cache',
      FileMissionRegistry.write place ⟨.holds map, version⟩ cache update =
        ((file, cache'), .outcome (update map).2.1) ∧
      file.content =
        .holds (if (update map).2.2 then (update map).1 else map) ∧
      file.Follows ⟨.holds map, version⟩ ∧
      cache'.map = (update map).1 ∧ cache'.fp = fileFingerprint place file ∧
      cache'.CopyOf place file := by
  unfold FileMissionRegistry.write
  rw [write_holds]
  cases hdirty : (update map).2.2 with
  | true =>
      simp only [hdirty, if_true]
      exact ⟨_, _, rfl, rfl, Or.inr (Nat.lt_succ_self _), rfl, rfl,
        copyOf_holds place fun _ _ h => h⟩
  | false =>
      simp only [hdirty, Bool.false_eq_true, if_false]
      exact ⟨_, _, rfl, rfl, Or.inl rfl, rfl, rfl,
        copyOf_holds place (hsub hdirty)⟩

/-- The map a call leaves in the file. -/
def savedBy (map : Missions) (now : UInt64) : RegistryCall → Missions
  | .register s256 entry =>
      let registered := missionRegister map s256 entry now
      if registered.2.2 then registered.1 else map
  | .terminate s256 =>
      let terminated := missionTerminate map s256 now
      if terminated.2.2 then terminated.1 else map
  | .status _ => map

theorem call_leaves (map : Missions) (version : ℕ) (now : UInt64)
    (request : RegistryCall)
    (hcopy : cache.CopyOf place ⟨.holds map, version⟩) :
    ∃ file cache' reply,
      FileMissionRegistry.call place ⟨.holds map, version⟩ cache now request =
        ((file, cache'), reply) ∧
      file.content = .holds (savedBy map now request) ∧
      file.Follows ⟨.holds map, version⟩ ∧ cache'.CopyOf place file := by
  cases request with
  | register s256 entry =>
      obtain ⟨file, cache', hwrite, hcontent, hfollows, -, -, hcopy'⟩ :=
        write_leaves place map version cache
          (fun map => missionRegister map s256 entry now) fun hdirty _ _ hfound =>
            sub_of_register_not_dirty hdirty hfound
      exact ⟨file, cache', _, hwrite, hcontent, hfollows, hcopy'⟩
  | terminate s256 =>
      obtain ⟨file, cache', hwrite, hcontent, hfollows, -, -, hcopy'⟩ :=
        write_leaves place map version cache
          (fun map => missionTerminate map s256 now) fun hdirty _ _ hfound =>
            sub_of_terminate_not_dirty hdirty hfound
      exact ⟨file, cache', _, hwrite, hcontent, hfollows, hcopy'⟩
  | status s256 =>
      unfold FileMissionRegistry.call
      rw [read_holds]
      by_cases hsame :
          some (place.fingerprintOf version (.holds map)) = cache.fp
      · rw [if_pos hsame]
        exact ⟨_, _, _, rfl, rfl, Or.inl rfl, hcopy⟩
      · rw [if_neg hsame]
        exact ⟨_, _, _, rfl, rfl, Or.inl rfl,
          copyOf_holds place fun _ _ h => h⟩

/-- The two maps a call can leave, in the file and in memory. -/
theorem saved_cases (map : Missions) (now : UInt64) (request : RegistryCall) :
    savedBy map now request = map ∨
      savedBy map now request =
        (MemoryMissionRegistry.call map now request).1 := by
  cases request with
  | register s256 entry =>
      unfold savedBy
      simp only
      split
      case isTrue => exact Or.inr rfl
      case isFalse => exact Or.inl rfl
  | terminate s256 =>
      unfold savedBy
      simp only
      split
      case isTrue => exact Or.inr rfl
      case isFalse => exact Or.inl rfl
  | status s256 => exact Or.inl rfl

variable {entryOf : String → MissionEntry} {entry : MissionEntry}
  {clock : UInt64} {request : RegistryCall}

theorem SameEntries.of_call (hsame : SameEntries entryOf map)
    (hown : ∀ s256 entry, request = .register s256 entry →
      entry = entryOf s256) :
    SameEntries entryOf (MemoryMissionRegistry.call map now request).1 := by
  cases request with
  | register s256 entry =>
      rw [hown s256 entry rfl]
      exact hsame.of_register
  | terminate s256 => exact hsame.of_terminate
  | status s256 => exact hsame

theorem SameEntries.of_saved (hsame : SameEntries entryOf map)
    (hown : ∀ s256 entry, request = .register s256 entry →
      entry = entryOf s256) :
    SameEntries entryOf (savedBy map now request) := by
  rcases saved_cases map now request with heq | heq
  · rwa [heq]
  · rw [heq]
    exact hsame.of_call hown

theorem Closed.later (hclosed : Closed map s256 entry clock)
    (hclock : clock ≤ now) : Closed map s256 entry now := by
  rcases hclosed with hrecord | ⟨hnone, hexpired⟩
  · exact Or.inl hrecord
  · exact Or.inr ⟨hnone, UInt64.le_trans hexpired hclock⟩

theorem Closed.of_call (hclosed : Closed map s256 (entryOf s256) clock)
    (hclock : clock ≤ now)
    (hown : ∀ s256 entry, request = .register s256 entry →
      entry = entryOf s256) :
    Closed (MemoryMissionRegistry.call map now request).1 s256
      (entryOf s256) now := by
  cases request with
  | register other new =>
      apply hclosed.of_register hclock
      intro hother
      rw [hown other new rfl, hother]
  | terminate other => exact hclosed.of_terminate hclock
  | status other => exact hclosed.later hclock

theorem Closed.of_saved (hclosed : Closed map s256 (entryOf s256) clock)
    (hclock : clock ≤ now)
    (hown : ∀ s256 entry, request = .register s256 entry →
      entry = entryOf s256) :
    Closed (savedBy map now request) s256 (entryOf s256) now := by
  rcases saved_cases map now request with heq | heq
  · rw [heq]
    exact hclosed.later hclock
  · rw [heq]
    exact hclosed.of_call hclock hown

end Calls

/-! ## Worlds -/

namespace RegistryWorld

variable {place : MapPath MissionEntry} {entryOf : String → MissionEntry}

/-- No handle is open yet, and what is on record is the hashes' own. -/
structure Start (entryOf : String → MissionEntry)
    (world : RegistryWorld H) : Prop where
  closed : ∀ handle, world.handles handle = none
  file : ∀ map, world.file.content = .holds map → SameEntries entryOf map
  memory : SameEntries entryOf world.memory

/-- Every open handle's copy is of some version of the file. -/
structure Tracks (place : MapPath MissionEntry)
    (entryOf : String → MissionEntry) (world : RegistryWorld H) : Prop where
  file : ∀ map, world.file.content = .holds map → SameEntries entryOf map
  memory : SameEntries entryOf world.memory
  copies : ∀ handle cache, world.handles handle = some cache →
    (∃ map, world.file.content = .holds map) ∧
      cache.CopyOf place world.file

theorem Start.tracks {world : RegistryWorld H}
    (hstart : world.Start entryOf) : world.Tracks place entryOf where
  file := hstart.file
  memory := hstart.memory
  copies handle cache hhandle := by
    rw [hstart.closed handle] at hhandle
    cases hhandle

variable [DecidableEq H]

/-- A call on an open handle, on the file and in memory. -/
theorem step_call {world : RegistryWorld H} {handle : H}
    {cache : CoherentCache MissionEntry} {map : Missions}
    (hhandle : world.handles handle = some cache)
    (hmap : world.file.content = .holds map)
    (hcopy : cache.CopyOf place world.file) (request : RegistryCall)
    (now : UInt64) :
    ∃ file cache', file.content = .holds (savedBy map now request) ∧
      file.Follows world.file ∧ cache'.CopyOf place file ∧
      world.step place (.call handle request now) =
        { file := file
          handles := Function.update world.handles handle (some cache')
          memory := (MemoryMissionRegistry.call world.memory now request).1
          clock := now } := by
  obtain ⟨⟨content, version⟩, handles, memory, clock⟩ := world
  cases hmap
  obtain ⟨file, cache', reply, hcall, hcontent, hfollows, hcopy'⟩ :=
    call_leaves map version now request hcopy
  refine ⟨file, cache', hcontent, hfollows, hcopy', ?_⟩
  simp only at hhandle
  simp only [step, hhandle, hcall]

/-- What every copy keeps to, every copy keeps to when one handle's is
replaced by another such copy. -/
theorem handles_update {handles : H → Option (CoherentCache MissionEntry)}
    {keeps : CoherentCache MissionEntry → Prop} {handle : H}
    {cache : CoherentCache MissionEntry}
    (hothers : ∀ other found, handles other = some found → keeps found)
    (hcache : keeps cache) {other : H} {found : CoherentCache MissionEntry}
    (hother : Function.update handles handle (some cache) other =
      some found) : keeps found := by
  by_cases heq : other = handle
  · subst heq
    rw [Function.update_self, Option.some.injEq] at hother
    rwa [← hother]
  · rw [Function.update_of_ne heq] at hother
    exact hothers other found hother

theorem Tracks.step {world : RegistryWorld H}
    (htracks : world.Tracks place entryOf) {action : RegistryStep H}
    (haction : world.Consistent entryOf action) :
    (world.step place action).Tracks place entryOf := by
  have hcopies : ∀ handle cache, world.handles handle = some cache →
      cache.CopyOf place world.file := fun handle cache hhandle =>
    (htracks.copies handle cache hhandle).2
  cases action with
  | openHandle handle =>
      obtain ⟨⟨content, version⟩, handles, memory, clock⟩ := world
      cases content with
      | unreadable message => exact htracks
      | absent =>
          refine ⟨?_, htracks.memory, ?_⟩
          · rintro map ⟨⟩ s256 entry hfound
            simp at hfound
          · intro other cache hother
            refine ⟨⟨∅, rfl⟩, ?_⟩
            exact handles_update
              (fun other found hfound =>
                (hcopies other found hfound).replaced place
                  (Nat.lt_succ_self _))
              (copyOf_holds place fun _ _ h => h) hother
      | holds map =>
          refine ⟨htracks.file, htracks.memory, ?_⟩
          intro other cache hother
          refine ⟨⟨map, rfl⟩, ?_⟩
          exact handles_update hcopies (copyOf_holds place fun _ _ h => h)
            hother
  | call handle request now =>
      cases hhandle : world.handles handle with
      | none =>
          simp only [RegistryWorld.step, hhandle]
          exact htracks
      | some cache =>
          obtain ⟨⟨map, hmap⟩, hcopy⟩ := htracks.copies handle cache hhandle
          obtain ⟨file, cache', hcontent, hfollows, hcopy', hstep⟩ :=
            step_call hhandle hmap hcopy request now
          rw [hstep]
          have hown : ∀ s256 entry, request = .register s256 entry →
              entry = entryOf s256 := by
            rintro s256 entry rfl
            exact haction.2 handle s256 entry now rfl
          refine ⟨?_, htracks.memory.of_call hown, ?_⟩
          · intro saved hsaved
            rw [hcontent, Stored.holds.injEq] at hsaved
            rw [← hsaved]
            exact (htracks.file map hmap).of_saved hown
          · intro other found hother
            exact ⟨⟨_, hcontent⟩, handles_update
              (fun other found hfound =>
                hfollows.copyOf (hcopies other found hfound))
              hcopy' hother⟩

/-- The Mission is closed in the file. -/
def FileClosed (world : RegistryWorld H) (s256 : String)
    (entry : MissionEntry) : Prop :=
  ∃ map, world.file.content = .holds map ∧
    Closed map s256 entry world.clock

theorem FileClosed.step {world : RegistryWorld H} {s256 : String}
    (htracks : world.Tracks place entryOf) {action : RegistryStep H}
    (haction : world.Consistent entryOf action)
    (hclosed : world.FileClosed s256 (entryOf s256)) :
    (world.step place action).FileClosed s256 (entryOf s256) := by
  obtain ⟨map, hmap, hclosed⟩ := hclosed
  cases action with
  | openHandle handle =>
      obtain ⟨⟨content, version⟩, handles, memory, clock⟩ := world
      cases hmap
      exact ⟨map, rfl, hclosed⟩
  | call handle request now =>
      cases hhandle : world.handles handle with
      | none =>
          simp only [RegistryWorld.step, hhandle]
          exact ⟨map, hmap, hclosed⟩
      | some cache =>
          obtain ⟨-, hcopy⟩ := htracks.copies handle cache hhandle
          obtain ⟨file, cache', hcontent, -, -, hstep⟩ :=
            step_call hhandle hmap hcopy request now
          rw [hstep]
          refine ⟨_, hcontent, hclosed.of_saved haction.1 ?_⟩
          rintro other entry rfl
          exact haction.2 handle other entry now rfl

/-- Closed in memory. -/
theorem memory_closed_step {world : RegistryWorld H} {s256 : String}
    {action : RegistryStep H} (haction : world.Consistent entryOf action)
    (hclosed : Closed world.memory s256 (entryOf s256) world.clock) :
    Closed (world.step place action).memory s256 (entryOf s256)
      (world.step place action).clock := by
  cases action with
  | openHandle handle =>
      unfold RegistryWorld.step
      simp only
      split
      case h_1 => exact hclosed
      case h_2 => exact hclosed
  | call handle request now =>
      cases hhandle : world.handles handle with
      | none =>
          simp only [RegistryWorld.step, hhandle]
          exact hclosed
      | some cache =>
          simp only [RegistryWorld.step, hhandle]
          apply hclosed.of_call haction.1
          rintro other entry rfl
          exact haction.2 handle other entry now rfl

/-- A terminate call that finds the Mission closes it. -/
theorem fileClosed_terminate {world : RegistryWorld H} {handle : H}
    {cache : CoherentCache MissionEntry} {map : Missions} {s256 : String}
    {entry : MissionEntry} (now : UInt64)
    (htracks : world.Tracks place entryOf)
    (hhandle : world.handles handle = some cache)
    (hmap : world.file.content = .holds map)
    (hfound : map[s256]? = some entry) :
    (world.step place (.call handle (.terminate s256) now)).FileClosed s256
      (entryOf s256) := by
  obtain ⟨-, hcopy⟩ := htracks.copies handle cache hhandle
  obtain ⟨file, cache', hcontent, -, -, hstep⟩ :=
    step_call hhandle hmap hcopy (.terminate s256) now
  rw [hstep]
  refine ⟨_, hcontent, ?_⟩
  obtain ⟨terminated, hsame⟩ := htracks.file map hmap s256 entry hfound
  have hexpiry : entry.expiry = (entryOf s256).expiry := by rw [hsame]
  unfold savedBy
  simp only
  split
  case isTrue => exact closed_terminate hfound hexpiry
  case isFalse hdirty =>
    left
    refine ⟨entry, hfound, ?_, hexpiry⟩
    simpa [missionTerminate, hfound] using hdirty

omit [DecidableEq H] in
theorem FileClosed.status {world : RegistryWorld H} {handle : H}
    {s256 : String} {entry found : MissionEntry} {now : UInt64}
    (hplace : place.Distinguishes) (htracks : world.Tracks place entryOf)
    (hclosed : world.FileClosed s256 entry)
    (hreply : world.fileReply place handle (.status s256) now =
      some (.answer (.ok (some found)))) : found.terminated = true := by
  obtain ⟨map, hmap, hclosed⟩ := hclosed
  obtain ⟨⟨content, version⟩, handles, memory, clock⟩ := world
  cases hmap
  unfold fileReply at hreply
  rw [Option.map_eq_some_iff] at hreply
  obtain ⟨cache, hhandle, hreply⟩ := hreply
  obtain ⟨-, hcopy⟩ := htracks.copies handle cache hhandle
  simp only [FileMissionRegistry.call] at hreply
  cases hread : CoherentMap.read place ⟨.holds map, version⟩ cache with
  | error error =>
      rw [hread] at hreply
      cases hreply
  | ok copy =>
      rw [hread] at hreply
      simp only [Reply.answer.injEq, Except.ok.injEq] at hreply
      exact hclosed.terminated
        (getElem?_of_read place hplace hcopy hread hreply)

omit [DecidableEq H] in
theorem FileClosed.register {world : RegistryWorld H} {handle : H}
    {s256 : String} {entry : MissionEntry} {now : UInt64}
    (hclosed : world.FileClosed s256 entry) (hclock : world.clock ≤ now)
    (hopen : (world.handles handle).isSome) :
    ∃ error, world.fileReply place handle (.register s256 entry) now =
      some (.outcome (.error error)) := by
  obtain ⟨map, hmap, hclosed⟩ := hclosed
  obtain ⟨⟨content, version⟩, handles, memory, clock⟩ := world
  cases hmap
  obtain ⟨cache, hhandle⟩ := Option.isSome_iff_exists.mp hopen
  obtain ⟨error, herror⟩ := hclosed.register_error hclock
  obtain ⟨file, cache', hwrite, -⟩ :=
    write_leaves place map version cache
      (fun map => missionRegister map s256 entry now) fun hdirty _ _ hfound =>
        sub_of_register_not_dirty hdirty hfound
  refine ⟨error, ?_⟩
  unfold fileReply FileMissionRegistry.call
  simp only at hhandle
  simp only [hhandle, Option.map_some, hwrite, herror]

theorem memory_closed_terminate {world : RegistryWorld H} {handle : H}
    {cache : CoherentCache MissionEntry} {s256 : String} (now : UInt64)
    (htracks : world.Tracks place entryOf)
    (hhandle : world.handles handle = some cache)
    (hmem : s256 ∈ world.memory) :
    Closed (world.step place (.call handle (.terminate s256) now)).memory
      s256 (entryOf s256)
      (world.step place (.call handle (.terminate s256) now)).clock := by
  have hfound := Std.ExtTreeMap.getElem?_eq_some_getElem hmem
  obtain ⟨terminated, hsame⟩ := htracks.memory _ _ hfound
  simp only [RegistryWorld.step, hhandle]
  exact closed_terminate hfound (by rw [hsame])

variable (entryOf) in
/-- What a registry says of a Mission that stays terminated. -/
def StaysTerminated (s256 : String)
    (reply : RegistryCall → UInt64 → Option Reply) (clock : UInt64) : Prop :=
  (∀ now found, reply (.status s256) now =
      some (.answer (.ok (some found))) → found.terminated = true) ∧
    ∀ now, clock ≤ now →
      ∃ error, reply (.register s256 (entryOf s256)) now =
        some (.outcome (.error error))

/-- Once a terminate call has found the Mission, no handle and no registry in
memory reports it active or registers it again, however long after. -/
theorem termination_permanent (place : MapPath MissionEntry)
    (hplace : place.Distinguishes) (entryOf : String → MissionEntry)
    (start : RegistryWorld H) (hstart : start.Start entryOf)
    (earlier later : List (RegistryStep H)) (handle : H) (s256 : String)
    (now : UInt64)
    (hrun : StateRun.Admitted (step place) (Consistent entryOf) start
      (earlier ++ .call handle (.terminate s256) now :: later))
    (hopen : ((StateRun.run (step place) start earlier).handles
      handle).isSome) :
    let before := StateRun.run (step place) start earlier
    let final := StateRun.run (step place) start
      (earlier ++ .call handle (.terminate s256) now :: later)
    ((∃ map, before.file.content = .holds map ∧ s256 ∈ map) →
      ∀ other, (final.handles other).isSome →
        StaysTerminated entryOf s256 (final.fileReply place other)
          final.clock) ∧
    (s256 ∈ before.memory →
      StaysTerminated entryOf s256
        (fun request now => some (final.memoryReply request now))
        final.clock) := by
  intro before final
  rw [StateRun.admitted_append] at hrun
  obtain ⟨hearlier, hcall, hlater⟩ := hrun
  have htracks : before.Tracks place entryOf :=
    StateRun.run_preserves_admitted (step place)
      (fun _ _ htracks haction => htracks.step haction) hstart.tracks hearlier
  have hnext := htracks.step hcall
  have hfinal : final = StateRun.run (step place)
      (before.step place (.call handle (.terminate s256) now)) later := by
    rw [← StateRun.run_cons, ← StateRun.run_append]
  obtain ⟨cache, hhandle⟩ := Option.isSome_iff_exists.mp hopen
  constructor
  · rintro ⟨map, hmap, hmem⟩ other hother
    have hclosed := fileClosed_terminate now htracks hhandle hmap
      (Std.ExtTreeMap.getElem?_eq_some_getElem hmem)
    have hstep : ∀ (world : RegistryWorld H) (action : RegistryStep H),
        world.Tracks place entryOf ∧ world.FileClosed s256 (entryOf s256) →
        world.Consistent entryOf action →
        (world.step place action).Tracks place entryOf ∧
          (world.step place action).FileClosed s256 (entryOf s256) :=
      fun world action hboth haction =>
        ⟨hboth.1.step haction, hboth.2.step hboth.1 haction⟩
    obtain ⟨htracks, hclosed⟩ : final.Tracks place entryOf ∧
        final.FileClosed s256 (entryOf s256) := by
      rw [hfinal]
      exact StateRun.run_preserves_admitted (step place) hstep
        ⟨hnext, hclosed⟩ hlater
    constructor
    · intro now found hreply
      exact hclosed.status hplace htracks hreply
    · intro now hclock
      exact hclosed.register hclock hother
  · intro hmem
    have hclosed := memory_closed_terminate now htracks hhandle hmem
    have hclosed : Closed final.memory s256 (entryOf s256) final.clock := by
      rw [hfinal]
      exact StateRun.run_preserves_admitted (step place)
        (fun _ _ hclosed haction => memory_closed_step haction hclosed)
        hclosed hlater
    constructor
    · intro now found hreply
      simp only [memoryReply, MemoryMissionRegistry.call, Option.some.injEq,
        Reply.answer.injEq, Except.ok.injEq] at hreply
      exact hclosed.terminated hreply
    · intro now hclock
      obtain ⟨error, herror⟩ := hclosed.register_error hclock
      exact ⟨error, by
        simp only [memoryReply, MemoryMissionRegistry.call, herror]⟩

/-- A path whose every version has an inode of its own. -/
def samplePlace : MapPath MissionEntry :=
  { path := "missions.json"
    fingerprintOf := fun version _ => ⟨version, 0, 0, 0⟩ }

theorem samplePlace_distinguishes : samplePlace.Distinguishes := by
  intro version content version' content' hsame
  left
  exact congrArg FileFingerprint.ino hsame

def sampleMission : MissionEntry :=
  { approver := "corp"
    expiry := 1000 }

def sampleWorld : RegistryWorld Bool :=
  { file := ⟨.absent, 0⟩
    handles := fun _ => none
    memory := ∅
    clock := 0 }

theorem sampleWorld_start :
    sampleWorld.Start fun _ => sampleMission where
  closed _ := rfl
  file := by
    rintro map ⟨⟩
  memory := by
    intro s256 entry hfound
    simp [sampleWorld] at hfound

/-- Two handles, and a Mission registered at one. -/
def sampleActions : List (RegistryStep Bool) :=
  [.openHandle false, .openHandle true,
    .call false (.register "m" sampleMission) 10]

theorem sampleActions_content :
    (StateRun.run (step samplePlace) sampleWorld
      sampleActions).file.content =
        .holds ((∅ : Missions).insert "m" sampleMission) := by
  have hkept : retainMissions ∅ 10 = ∅ := by
    apply Std.ExtTreeMap.ext_getElem?
    intro key
    simp [getElem?_retainMissions]
  have hregister : missionRegister ∅ "m" sampleMission 10 =
      ((∅ : Missions).insert "m" sampleMission, .ok (), true) := by
    simp [missionRegister, hkept, sampleMission]
  simp [StateRun.run, sampleActions, step, sampleWorld, openFile_absent,
    openFile_holds, FileMissionRegistry.call, FileMissionRegistry.write,
    write_holds, hregister, Function.update]

/-- One handle registers a Mission, the other terminates it. -/
theorem termination_permanent_sample :
    let final := StateRun.run (step samplePlace) sampleWorld
      (sampleActions ++ [.call true (.terminate "m") 10,
        .call false (.register "other" sampleMission) 20])
    StaysTerminated (fun _ => sampleMission) "m"
      (final.fileReply samplePlace false) final.clock := by
  intro final
  have hrun : StateRun.Admitted (step samplePlace)
      (Consistent fun _ => sampleMission) sampleWorld
      (sampleActions ++ [.call true (.terminate "m") 10,
        .call false (.register "other" sampleMission) 20]) := by
    have hfirst : (0 : UInt64) ≤ 10 := by decide
    have hsecond : (10 : UInt64) ≤ 10 := by decide
    have hthird : (10 : UInt64) ≤ 20 := by decide
    refine ⟨⟨trivial, ?_⟩, ⟨trivial, ?_⟩, ⟨hfirst, ?_⟩, ⟨hsecond, ?_⟩,
      ⟨hthird, ?_⟩, trivial⟩
    all_goals simp
  exact (termination_permanent samplePlace samplePlace_distinguishes
    (fun _ => sampleMission) sampleWorld sampleWorld_start sampleActions
    [.call false (.register "other" sampleMission) 20] true "m" 10 hrun
    rfl).1 ⟨_, sampleActions_content, by simp⟩ false rfl

end RegistryWorld

end Decern
