import Decern.MissionRuns
import Mathlib.Tactic

/-!
# Handles, file and memory

Every handle answers as a fresh one and as the registry in memory, exactly
while no write that has nothing to save meets an entry to sweep.
-/

namespace Decern

variable {H : Type} {place : MapPath MissionEntry}

/-- A call that changes nothing on record: a registration of a Mission that is
there or is expired, a termination of one that is terminated or not there. -/
def SavesNothing (map : Missions) (now : UInt64) : RegistryCall → Prop
  | .register s256 entry =>
      (∃ found, map[s256]? = some found ∧
        missionEntryRetained found now = true) ∨ entry.expiry ≤ now
  | .terminate s256 =>
      ∀ found, map[s256]? = some found → found.terminated = true
  | .status _ => False

/-- No entry is due to be swept. -/
def NothingDue (map : Missions) (now : UInt64) : Prop :=
  ∀ (s256 : String) (entry : MissionEntry), map[s256]? = some entry →
    missionEntryRetained entry now = true

namespace RegistryWorld

variable [DecidableEq H]

/-- Where the registries are as they should be, a handle answers as a fresh
one and as the registry in memory. -/
def Agreement (place : MapPath MissionEntry) (world : RegistryWorld H) :
    Prop :=
  ∀ handle s256 now reply,
    world.fileReply place handle (.status s256) now = some reply →
    FileMissionRegistry.freshStatus place world.file now s256 = .ok reply ∧
      world.memoryReply (.status s256) now = reply

/-- A call replies alike on file and in memory, and leaves the registries in
agreement. -/
def AgreesOn (place : MapPath MissionEntry) (world : RegistryWorld H)
    (action : RegistryStep H) : Prop :=
  (∀ handle request now reply, action = .call handle request now →
    world.fileReply place handle request now = some reply →
    world.memoryReply request now = reply) ∧
  (world.step place action).Agreement place

/-- A call with nothing to save finds nothing due to be swept. -/
def Quiet (world : RegistryWorld H) (action : RegistryStep H) : Prop :=
  ∀ handle request now map, action = .call handle request now →
    (world.handles handle).isSome → world.file.content = .holds map →
    SavesNothing map now request → NothingDue map now

end RegistryWorld

/-! ## Writes with nothing to save -/

section Maps

variable {map : Missions} {now : UInt64} {s256 : String}
  {entry : MissionEntry}

theorem retainMissions_eq_self (hdue : NothingDue map now) :
    retainMissions map now = map := by
  apply Std.ExtTreeMap.ext_getElem?
  intro key
  rw [getElem?_retainMissions]
  cases hfound : map[key]? with
  | none => rfl
  | some found => simp [hdue key found hfound]

theorem register_not_dirty_iff :
    (missionRegister map s256 entry now).2.2 = false ↔
      SavesNothing map now (.register s256 entry) := by
  unfold SavesNothing
  simp only [← getElem?_retainMissions_eq_some]
  unfold missionRegister
  cases hfound : (retainMissions map now)[s256]? with
  | some found =>
      simp only [hfound, Option.some.injEq, exists_eq', true_or, iff_true]
      split <;> rfl
  | none =>
      simp only [hfound, reduceCtorEq, exists_false, false_or]
      by_cases hexpiry : entry.expiry ≤ now
      · simp [hexpiry]
      · simp [hexpiry]

theorem terminate_not_dirty_iff :
    (missionTerminate map s256 now).2.2 = false ↔
      SavesNothing map now (.terminate s256) := by
  unfold missionTerminate SavesNothing
  cases hfound : map[s256]? with
  | none => simp [hfound]
  | some found => simp [hfound]

theorem register_of_not_dirty
    (hdirty : (missionRegister map s256 entry now).2.2 = false) :
    (missionRegister map s256 entry now).1 = retainMissions map now := by
  rcases missionRegister_cases map s256 entry now with
    ⟨error, heq⟩ | ⟨found, hfound, hactive, heq⟩ | ⟨hnone, hfuture, heq⟩
  · rw [heq]
  · rw [heq]
  · rw [heq] at hdirty
    cases hdirty

theorem terminate_of_not_dirty
    (hdirty : (missionTerminate map s256 now).2.2 = false) :
    (missionTerminate map s256 now).1 = retainMissions map now := by
  have hmark := markTerminated_of_not_dirty hdirty
  unfold missionTerminate
  simp only [hmark]

end Maps

/-! ## Exact copies -/

/-- A copy that dropped nothing of the version it was taken of. -/
def CoherentCache.ExactCopyOf {V : Type} (cache : CoherentCache V)
    (place : MapPath V) (file : MapFile V) : Prop :=
  ∃ taken, cache.fp = some (place.fingerprintOf taken (.holds cache.map)) ∧
    taken ≤ file.version ∧
    (taken = file.version → file.content = .holds cache.map)

section Copies

variable {cache : CoherentCache MissionEntry} {map : Missions}
  {file before : MapFile MissionEntry} {now : UInt64}

theorem exactCopyOf_holds (place : MapPath MissionEntry) (map : Missions)
    (version : ℕ) :
    CoherentCache.ExactCopyOf
      ⟨map, some (place.fingerprintOf version (.holds map))⟩ place
      ⟨.holds map, version⟩ :=
  ⟨version, rfl, le_refl _, fun _ => rfl⟩

theorem exactCopyOf_follows (hfollows : file.Follows before)
    (hcopy : cache.ExactCopyOf place before) :
    cache.ExactCopyOf place file := by
  rcases hfollows with rfl | hversion
  · exact hcopy
  · obtain ⟨taken, hfp, hle, -⟩ := hcopy
    exact ⟨taken, hfp, by omega, by omega⟩

/-- An exact copy reads as the file does. -/
theorem read_exact (hplace : place.Distinguishes) {version : ℕ}
    (hcopy : cache.ExactCopyOf place ⟨.holds map, version⟩) :
    ∃ found, CoherentMap.read place ⟨.holds map, version⟩ cache = .ok found ∧
      found.map = map ∧ found.ExactCopyOf place ⟨.holds map, version⟩ := by
  rw [read_holds]
  by_cases hsame :
      some (place.fingerprintOf version (.holds map)) = cache.fp
  · rw [if_pos hsame]
    refine ⟨cache, rfl, ?_, hcopy⟩
    obtain ⟨taken, hfp, -, hcurrent⟩ := hcopy
    rw [hfp, Option.some.injEq] at hsame
    rcases hplace _ _ _ _ hsame with htaken | hcontent
    · exact (Stored.holds.inj (hcurrent htaken.symm)).symm
    · exact (Stored.holds.inj hcontent).symm
  · rw [if_neg hsame]
    exact ⟨_, rfl, rfl, exactCopyOf_holds place map version⟩

/-- A write that changes nothing unsaved leaves the update's map in the file
and in the copy. -/
theorem write_exact (place : MapPath MissionEntry) (map : Missions)
    (version : ℕ) (cache : CoherentCache MissionEntry)
    (update : Missions → Missions × Except StoreError Unit × Bool)
    (hkept : (update map).2.2 = false → (update map).1 = map) :
    ∃ file cache',
      FileMissionRegistry.write place ⟨.holds map, version⟩ cache update =
        ((file, cache'), .outcome (update map).2.1) ∧
      file.content = .holds (update map).1 ∧
      file.Follows ⟨.holds map, version⟩ ∧ cache'.ExactCopyOf place file := by
  obtain ⟨⟨content, version'⟩, ⟨copied, fp⟩, hwrite, hcontent, hfollows,
      hmap, hfp, -⟩ :=
    write_leaves place map version cache update fun hdirty key found hfound =>
      by rwa [hkept hdirty] at hfound
  have hsaved : (if (update map).2.2 then (update map).1 else map) =
      (update map).1 := by
    cases hdirty : (update map).2.2 with
    | true => rfl
    | false => exact (hkept hdirty).symm
  simp only at hcontent hmap hfp
  rw [hsaved] at hcontent
  subst hcontent hmap hfp
  exact ⟨_, _, hwrite, rfl, hfollows,
    exactCopyOf_holds place (update map).1 version'⟩

end Copies

/-! ## Worlds in step -/

namespace RegistryWorld

/-- No handle is open yet, and the registry in memory has what the file
has. -/
structure Alike (world : RegistryWorld H) : Prop where
  closed : ∀ handle, world.handles handle = none
  content : (world.file.content = .absent ∧ world.memory = ∅) ∨
    world.file.content = .holds world.memory

/-- The file holds what the registry in memory has, and the open handles have
exact copies. -/
structure InStep (place : MapPath MissionEntry)
    (world : RegistryWorld H) : Prop where
  content : (world.file.content = .absent ∧ world.memory = ∅) ∨
    world.file.content = .holds world.memory
  copies : ∀ handle cache, world.handles handle = some cache →
    world.file.content = .holds world.memory ∧
      cache.ExactCopyOf place world.file

theorem Alike.inStep {world : RegistryWorld H} (halike : world.Alike) :
    world.InStep place where
  content := halike.content
  copies handle cache hhandle := by
    rw [halike.closed handle] at hhandle
    cases hhandle

theorem InStep.agreement {world : RegistryWorld H}
    (hplace : place.Distinguishes) (hworld : world.InStep place) :
    world.Agreement place := by
  intro handle s256 now reply hreply
  obtain ⟨cache, hhandle, rfl⟩ := Option.map_eq_some_iff.mp hreply
  obtain ⟨hcontent, hcopy⟩ := hworld.copies handle cache hhandle
  obtain ⟨⟨content, version⟩, handles, memory, clock⟩ := world
  simp only at hcontent
  subst hcontent
  obtain ⟨found, hread, hmap, -⟩ := read_exact hplace hcopy
  obtain ⟨fresh, hfresh, hfreshMap, -⟩ :=
    read_exact hplace (exactCopyOf_holds place memory version)
  simp only [FileMissionRegistry.freshStatus, openFile_holds, bind,
    Except.bind, pure, Except.pure, FileMissionRegistry.call, hread, hfresh,
    hmap, hfreshMap]
  exact ⟨trivial, rfl⟩

/-- A quiet call leaves the file, the caller's copy and the registry in memory
with one map, and replies alike. -/
theorem InStep.write {world : RegistryWorld H} {handle : H}
    {cache : CoherentCache MissionEntry} {now : UInt64}
    (hplace : place.Distinguishes) (hworld : world.InStep place)
    (hhandle : world.handles handle = some cache) (request : RegistryCall)
    (hquiet : SavesNothing world.memory now request →
      NothingDue world.memory now) :
    ∃ file cache',
      FileMissionRegistry.call place world.file cache now request =
        ((file, cache'), world.memoryReply request now) ∧
      file.content =
        .holds (MemoryMissionRegistry.call world.memory now request).1 ∧
      file.Follows world.file ∧ cache'.ExactCopyOf place file := by
  obtain ⟨hcontent, hcopy⟩ := hworld.copies handle cache hhandle
  obtain ⟨⟨content, version⟩, handles, memory, clock⟩ := world
  simp only at hcontent
  subst hcontent
  cases request with
  | register s256 entry =>
      apply write_exact place memory version cache
        (fun map => missionRegister map s256 entry now)
      intro hdirty
      rw [register_of_not_dirty hdirty]
      exact retainMissions_eq_self
        (hquiet (register_not_dirty_iff.mp hdirty))
  | terminate s256 =>
      apply write_exact place memory version cache
        (fun map => missionTerminate map s256 now)
      intro hdirty
      rw [terminate_of_not_dirty hdirty]
      exact retainMissions_eq_self
        (hquiet (terminate_not_dirty_iff.mp hdirty))
  | status s256 =>
      obtain ⟨found, hread, hmap, hexact⟩ := read_exact hplace hcopy
      simp only [FileMissionRegistry.call, hread, hmap]
      exact ⟨_, _, rfl, rfl, Or.inl rfl, hexact⟩

variable [DecidableEq H]

theorem InStep.step {world : RegistryWorld H} (hplace : place.Distinguishes)
    (hworld : world.InStep place) {action : RegistryStep H}
    (hquiet : world.Quiet action) :
    (world.step place action).InStep place ∧
      world.AgreesOn place action := by
  suffices hstep : (world.step place action).InStep place ∧
      ∀ handle request now reply, action = .call handle request now →
        world.fileReply place handle request now = some reply →
        world.memoryReply request now = reply from
    ⟨hstep.1, hstep.2, hstep.1.agreement hplace⟩
  cases action with
  | openHandle handle =>
      refine ⟨?_, by rintro _ _ _ _ ⟨⟩⟩
      have hcopies : ∀ other found, world.handles other = some found →
          found.ExactCopyOf place world.file := fun other found hfound =>
        (hworld.copies other found hfound).2
      obtain ⟨⟨content, version⟩, handles, memory, clock⟩ := world
      rcases hworld.content with ⟨habsent, hempty⟩ | hcontent
      · simp only at habsent hempty
        subst habsent hempty
        refine ⟨Or.inr rfl, ?_⟩
        intro other found hother
        exact ⟨rfl, handles_update
          (fun other found hfound => exactCopyOf_follows
            (Or.inr (Nat.lt_succ_self _)) (hcopies other found hfound))
          (exactCopyOf_holds place ∅ (version + 1)) hother⟩
      · simp only at hcontent
        subst hcontent
        refine ⟨Or.inr rfl, ?_⟩
        intro other found hother
        exact ⟨rfl, handles_update hcopies
          (exactCopyOf_holds place memory version) hother⟩
  | call handle request now =>
      cases hhandle : world.handles handle with
      | none =>
          simp only [RegistryWorld.step, hhandle]
          refine ⟨hworld, ?_⟩
          rintro _ _ _ reply ⟨⟩ hreply
          simp [fileReply, hhandle] at hreply
      | some cache =>
          have hcontent := (hworld.copies handle cache hhandle).1
          obtain ⟨file, cache', hcall, hfile, hfollows, hexact⟩ :=
            hworld.write hplace hhandle request
              (hquiet handle request now _ rfl (by simp [hhandle]) hcontent)
          simp only [RegistryWorld.step, hhandle, hcall]
          refine ⟨⟨Or.inr hfile, ?_⟩, ?_⟩
          · intro other found hother
            exact ⟨hfile, handles_update
              (fun other found hfound => exactCopyOf_follows hfollows
                (hworld.copies other found hfound).2)
              hexact hother⟩
          · rintro _ _ _ reply ⟨⟩ hreply
            simp only [fileReply, hhandle, hcall, Option.map_some,
              Option.some.injEq] at hreply
            exact hreply

omit [DecidableEq H] in
/-- A copy with the file's fingerprint that dropped an entry the file has
answers unlike a fresh handle. -/
theorem not_agreement_of_dropped {world : RegistryWorld H} {handle : H}
    {cache : CoherentCache MissionEntry} {map : Missions} {s256 : String}
    {entry : MissionEntry} (hhandle : world.handles handle = some cache)
    (hcontent : world.file.content = .holds map)
    (hfp : cache.fp = fileFingerprint place world.file)
    (hdropped : cache.map[s256]? = none) (hfound : map[s256]? = some entry) :
    ¬ world.Agreement place := by
  intro hagrees
  obtain ⟨⟨content, version⟩, handles, memory, clock⟩ := world
  simp only at hcontent hhandle hfp
  subst hcontent
  have hreply : fileReply place ⟨⟨.holds map, version⟩, handles, memory,
      clock⟩ handle (.status s256) 0 = some (.answer (.ok none)) := by
    simp only [fileReply, hhandle, Option.map_some, FileMissionRegistry.call,
      CoherentMap.read, hfp, if_true, hdropped]
  obtain ⟨hfresh, -⟩ := hagrees handle s256 0 _ hreply
  obtain ⟨fresh, hread, hmap, -⟩ : ∃ fresh, CoherentMap.read place
      ⟨.holds map, version⟩
      ⟨map, some (place.fingerprintOf version (.holds map))⟩ = .ok fresh ∧
        fresh.map = map ∧ True := by
    rw [read_holds, if_pos rfl]
    exact ⟨_, rfl, rfl, trivial⟩
  simp only [FileMissionRegistry.freshStatus, openFile_holds, bind,
    Except.bind, pure, Except.pure, FileMissionRegistry.call, hread, hmap,
    hfound] at hfresh
  cases hfresh

/-- A write that saves nothing drops what is due from the caller's copy and
leaves it in the file. -/
theorem call_drops (place : MapPath MissionEntry) {map : Missions}
    (version : ℕ) (cache : CoherentCache MissionEntry) {now : UInt64}
    {request : RegistryCall} (hsaves : SavesNothing map now request) :
    ∃ file cache' reply,
      FileMissionRegistry.call place ⟨.holds map, version⟩ cache now request =
        ((file, cache'), reply) ∧
      file.content = .holds map ∧ cache'.map = retainMissions map now ∧
      cache'.fp = fileFingerprint place file := by
  cases request with
  | register s256 entry =>
      have hdirty := register_not_dirty_iff.mpr hsaves
      obtain ⟨file, cache', hwrite, hcontent, -, hmap, hfp, -⟩ :=
        write_leaves place map version cache
          (fun map => missionRegister map s256 entry now)
          fun hdirty _ _ hfound => sub_of_register_not_dirty hdirty hfound
      rw [register_of_not_dirty hdirty] at hmap
      simp only [hdirty, Bool.false_eq_true, if_false] at hcontent
      exact ⟨file, cache', _, hwrite, hcontent, hmap, hfp⟩
  | terminate s256 =>
      have hdirty := terminate_not_dirty_iff.mpr hsaves
      obtain ⟨file, cache', hwrite, hcontent, -, hmap, hfp, -⟩ :=
        write_leaves place map version cache
          (fun map => missionTerminate map s256 now)
          fun hdirty _ _ hfound => sub_of_terminate_not_dirty hdirty hfound
      rw [terminate_of_not_dirty hdirty] at hmap
      simp only [hdirty, Bool.false_eq_true, if_false] at hcontent
      exact ⟨file, cache', _, hwrite, hcontent, hmap, hfp⟩
  | status s256 => cases hsaves

theorem quiet_of_agreesOn {world : RegistryWorld H} {action : RegistryStep H}
    (hagrees : world.AgreesOn place action) : world.Quiet action := by
  rintro handle request now map rfl hopen hmap hsaves s256 entry hfound
  by_contra hdue
  obtain ⟨cache, hhandle⟩ := Option.isSome_iff_exists.mp hopen
  obtain ⟨⟨content, version⟩, handles, memory, clock⟩ := world
  simp only at hmap hhandle
  subst hmap
  obtain ⟨file, cache', reply, hcall, hcontent, hkept, hfp⟩ :=
    call_drops place version cache hsaves
  have hagreement := hagrees.2
  simp only [RegistryWorld.step, hhandle, hcall] at hagreement
  refine not_agreement_of_dropped (Function.update_self _ _ _) hcontent hfp
    ?_ hfound hagreement
  rw [hkept, getElem?_retainMissions, hfound]
  simpa using hdue

/-- Every status answers as a fresh handle and as memory, and every write
replies as in memory, exactly when no call with nothing to save meets an entry
due to be swept. -/
theorem registries_agree_iff (place : MapPath MissionEntry)
    (hplace : place.Distinguishes) (start : RegistryWorld H)
    (hstart : start.Alike) (actions : List (RegistryStep H)) :
    StateRun.Admitted (step place) (AgreesOn place) start actions ↔
      StateRun.Admitted (step place) Quiet start actions := by
  have hworld : start.InStep place := hstart.inStep
  clear hstart
  induction actions generalizing start with
  | nil => exact Iff.rfl
  | cons action rest ih =>
      constructor
      · rintro ⟨hagrees, hrest⟩
        have hquiet := quiet_of_agreesOn hagrees
        exact ⟨hquiet, (ih _ (hworld.step hplace hquiet).1).mp hrest⟩
      · rintro ⟨hquiet, hrest⟩
        obtain ⟨hnext, hagrees⟩ := hworld.step hplace hquiet
        exact ⟨hagrees, (ih _ hnext).mpr hrest⟩

/-- A termination of an unknown Mission past the expiry of another: the
caller no longer sees the expired one, and the file still holds it. -/
theorem unsaved_sweep_disagrees :
    ¬ ∀ actions : List (RegistryStep Bool),
      StateRun.Admitted (step samplePlace) (AgreesOn samplePlace) sampleWorld
        actions := by
  intro hall
  have hrun := hall (sampleActions ++ [.call false (.terminate "ghost") 2000])
  rw [StateRun.admitted_append] at hrun
  have hquiet := quiet_of_agreesOn hrun.2.1
  have hdue := hquiet false (.terminate "ghost") 2000 _ rfl rfl
    sampleActions_content
    (by simp [SavesNothing])
    "m" sampleMission (by simp)
  exact absurd hdue (by decide)

theorem registries_agree_sample :
    StateRun.Admitted (step samplePlace) (AgreesOn samplePlace) sampleWorld
      sampleActions := by
  have halike : sampleWorld.Alike :=
    { closed := fun _ => rfl
      content := Or.inl ⟨rfl, rfl⟩ }
  apply (registries_agree_iff samplePlace samplePlace_distinguishes
    sampleWorld halike sampleActions).mpr
  refine ⟨?_, ?_, ?_, trivial⟩
  · rintro handle request now map ⟨⟩
  · rintro handle request now map ⟨⟩
  · rintro handle request now map ⟨⟩ hopen ⟨⟩ hsaves s256 entry hfound
    simp at hfound

end RegistryWorld

end Decern
