import Decern.CoherentMap
import Mathlib.Tactic

/-!
# The Mission registry

Missions by content hash, in memory or in a coherent map.  Every write drops
what has expired; a terminated Mission stays on record for a while past its
expiry.
-/

namespace Decern

structure MissionEntry where
  approver : String
  expiry : UInt64
  terminated : Bool := false
  agent : String := ""
  approvedTools : List String := []
  deriving DecidableEq, Repr

abbrev Missions := StringMap MissionEntry

def terminatedTombstoneRetentionSecs : ℕ := 30 * 24 * 60 * 60

/-- `u64::saturating_add`, as a number. -/
def saturatingAdd (left : UInt64) (right : ℕ) : ℕ :=
  min (left.toNat + right) (UInt64.size - 1)

def missionEntryRetained (entry : MissionEntry) (now : UInt64) : Bool :=
  if entry.terminated then
    decide (now.toNat <
      saturatingAdd entry.expiry terminatedTombstoneRetentionSecs)
  else decide (now < entry.expiry)

/-- `map.retain(|_, e| mission_entry_retained(e, now))`. -/
def retainMissions (map : Missions) (now : UInt64) : Missions :=
  map.filter fun _ entry => missionEntryRetained entry now

def terminatedError (s256 : String) : StoreError :=
  .invalid ("mission " ++ s256 ++ " is terminated and cannot be re-registered")

def expiredError (s256 : String) (expiry now : UInt64) : StoreError :=
  .invalid ("mission " ++ s256 ++ " expiry " ++ toString expiry ++
    " is not in the future (now " ++ toString now ++ "); cannot register")

/-- The map after, the outcome, and whether the map is to be saved. -/
def missionRegister (map : Missions) (s256 : String) (entry : MissionEntry)
    (now : UInt64) : Missions × Except StoreError Unit × Bool :=
  let kept := retainMissions map now
  match kept[s256]? with
  | some existing =>
      if existing.terminated then (kept, .error (terminatedError s256), false)
      else (kept, .ok (), false)
  | none =>
      if entry.expiry ≤ now then
        (kept, .error (expiredError s256 entry.expiry now), false)
      else (kept.insert s256 entry, .ok (), true)

/-- `if let Some(e) = map.get_mut(s256) { e.terminated = true }`. -/
def markTerminated (map : Missions) (s256 : String) : Missions :=
  match map[s256]? with
  | some entry => map.insert s256 { entry with terminated := true }
  | none => map

/-- Marked before the sweep. -/
def missionTerminate (map : Missions) (s256 : String) (now : UInt64) :
    Missions × Except StoreError Unit × Bool :=
  let dirty := match map[s256]? with
    | some entry => !entry.terminated
    | none => false
  (retainMissions (markTerminated map s256) now, .ok (), dirty)

/-! ## Calls -/

inductive RegistryCall where
  | register (s256 : String) (entry : MissionEntry)
  | terminate (s256 : String)
  | status (s256 : String)
  deriving DecidableEq, Repr

inductive Reply where
  | outcome (result : Except StoreError Unit)
  | answer (found : Except StoreError (Option MissionEntry))
  deriving DecidableEq

namespace MemoryMissionRegistry

def call (map : Missions) (now : UInt64) : RegistryCall → Missions × Reply
  | .register s256 entry =>
      let registered := missionRegister map s256 entry now
      (registered.1, .outcome registered.2.1)
  | .terminate s256 =>
      let terminated := missionTerminate map s256 now
      (terminated.1, .outcome terminated.2.1)
  | .status s256 => (map, .answer (.ok map[s256]?))

end MemoryMissionRegistry

namespace FileMissionRegistry

variable (place : MapPath MissionEntry)

/-- A write, or the file and the handle as they were and an error. -/
def write (file : MapFile MissionEntry) (cache : CoherentCache MissionEntry)
    (update : Missions → Missions × Except StoreError Unit × Bool) :
    (MapFile MissionEntry × CoherentCache MissionEntry) × Reply :=
  match CoherentMap.write place update file with
  | .error error => ((file, cache), .outcome (.error error))
  | .ok (file, cache, result) => ((file, cache), .outcome result)

def call (file : MapFile MissionEntry) (cache : CoherentCache MissionEntry)
    (now : UInt64) : RegistryCall →
    (MapFile MissionEntry × CoherentCache MissionEntry) × Reply
  | .register s256 entry =>
      write place file cache fun map => missionRegister map s256 entry now
  | .terminate s256 =>
      write place file cache fun map => missionTerminate map s256 now
  | .status s256 =>
      match CoherentMap.read place file cache with
      | .error error => ((file, cache), .answer (.error error))
      | .ok read => ((file, read), .answer (.ok read.map[s256]?))

/-- What a handle opened on the file now answers. -/
def freshStatus (file : MapFile MissionEntry) (now : UInt64)
    (s256 : String) : Except StoreError Reply := do
  let opened ← CoherentMap.openFile place file
  return (call place opened.1 opened.2 now (.status s256)).2

end FileMissionRegistry

/-! ## Maps under the registry's operations -/

section Maps

variable {map : Missions} {now : UInt64} {s256 other : String}
  {entry : MissionEntry}

theorem getElem?_retainMissions :
    (retainMissions map now)[s256]? =
      map[s256]?.filter fun entry => missionEntryRetained entry now := by
  simp [retainMissions]

theorem getElem?_retainMissions_eq_some :
    (retainMissions map now)[s256]? = some entry ↔
      map[s256]? = some entry ∧ missionEntryRetained entry now = true := by
  rw [getElem?_retainMissions, Option.filter_eq_some_iff]

theorem getElem?_markTerminated :
    (markTerminated map s256)[other]? =
      if s256 = other then
        map[other]?.map fun entry => { entry with terminated := true }
      else map[other]? := by
  unfold markTerminated
  cases hfound : map[s256]? with
  | none =>
      by_cases heq : s256 = other
      · rw [if_pos heq, ← heq, hfound]
        rfl
      · rw [if_neg heq]
  | some entry =>
      simp only [Std.ExtTreeMap.getElem?_insert,
        Std.LawfulEqCmp.compare_eq_iff_eq]
      by_cases heq : s256 = other
      · rw [if_pos heq, if_pos heq, ← heq, hfound]
        rfl
      · rw [if_neg heq, if_neg heq]

/-- When an entry is due to be swept. -/
def MissionEntry.retainedUntil (entry : MissionEntry) : ℕ :=
  if entry.terminated then
    saturatingAdd entry.expiry terminatedTombstoneRetentionSecs
  else entry.expiry.toNat

theorem missionEntryRetained_eq_false_iff :
    missionEntryRetained entry now = false ↔
      entry.retainedUntil ≤ now.toNat := by
  unfold missionEntryRetained MissionEntry.retainedUntil
  by_cases hterminated : entry.terminated = true
  · rw [if_pos hterminated, if_pos hterminated, decide_eq_false_iff_not,
      Nat.not_lt]
  · rw [if_neg hterminated, if_neg hterminated, decide_eq_false_iff_not,
      UInt64.lt_iff_toNat_lt, Nat.not_lt]

theorem expiry_le_retainedUntil (entry : MissionEntry) :
    entry.expiry.toNat ≤ entry.retainedUntil := by
  have hexpiry := entry.expiry.toNat_lt
  have hsize : UInt64.size = 2 ^ 64 := rfl
  unfold MissionEntry.retainedUntil saturatingAdd
  split
  case isTrue => omega
  case isFalse => exact le_refl _

/-- An entry swept is past its expiry. -/
theorem expiry_le_of_not_retained
    (h : missionEntryRetained entry now = false) : entry.expiry ≤ now := by
  rw [missionEntryRetained_eq_false_iff] at h
  rw [UInt64.le_iff_toNat_le]
  exact le_trans (expiry_le_retainedUntil entry) h

end Maps

end Decern
