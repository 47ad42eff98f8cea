import Decern.MissionBinding
import Decern.MissionRuns
import Mathlib.Tactic

/-!
# A host of Missions

Approvals, terminations and decisions under way at once, over one registry and
one ledger.  Each reads the clock when it starts and then goes step by step;
between any two steps of one, the others take theirs.
-/

namespace Decern

open Serde (Value)

/-! ## The host's registry -/

inductive HostRegistry where
  | inMemory (map : Missions)
  | onFile (file : MapFile MissionEntry)
      (handle : CoherentCache MissionEntry)

namespace HostRegistry

variable (place : MapPath MissionEntry)

def call (registry : HostRegistry) (now : UInt64) (request : RegistryCall) :
    HostRegistry × Reply :=
  match registry with
  | .inMemory map =>
      let after := MemoryMissionRegistry.call map now request
      (.inMemory after.1, after.2)
  | .onFile file handle =>
      let after := FileMissionRegistry.call place file handle now request
      (.onFile after.1.1 after.1.2, after.2)

/-- What the registry answers from; a copy it reloads on the way answers the
same. -/
def view : HostRegistry → Except StoreError Missions
  | .inMemory map => .ok map
  | .onFile file handle =>
      (CoherentMap.read place file handle).map CoherentCache.map

def status (registry : HostRegistry) (s256 : String) : MissionStatus :=
  (registry.view place).map fun map => map[s256]?

end HostRegistry

/-! ## Records of a Mission's life -/

/-- The record of an approval or a termination, over the columns that are
derived for it elsewhere. -/
def missionEntry (columns : Entry) (now : UInt64)
    (approver action s256 : String) : Entry :=
  { columns with
    tsMs := UInt64.ofNat (min (now.toNat * 1000) (UInt64.size - 1))
    subjectType := "Principal"
    subjectId := approver
    action := action
    resourceType := "Mission"
    resourceId := s256
    decision := true
    mission := some ⟨approver, s256⟩ }

/-- A request for a decision: what a Mission is bound by, and the record the
kernel's decision makes with and without one. -/
structure DecisionRequest where
  dir : Graph.Directory
  required : Bool
  subjectId : String
  action : String
  context : Value
  check : Option MissionRef → Entry

/-- A decision no Mission could be bound to where one was needed is a Deny. -/
def DecisionRequest.decided (request : DecisionRequest) :
    MissionBind → Entry
  | .none =>
      { request.check none with
        action := request.action
        mission := none }
  | .ok reference =>
      { request.check (some reference) with
        action := request.action
        mission := some reference }
  | .deny _ =>
      { request.check none with
        action := request.action
        decision := false
        reasons := []
        mission := none }

/-! ## The host -/

/-- Where a request has got to. -/
inductive MissionTask where
  | idle
  | deciding (request : DecisionRequest) (now : UInt64)
  | bound (entry : Entry)
  | approving (columns : Entry) (s256 : String) (mission : MissionEntry)
      (now : UInt64)
  | approved (columns : Entry) (s256 : String) (mission : MissionEntry)
      (now : UInt64)
  | registering (s256 : String) (mission : MissionEntry) (now : UInt64)
  | terminating (columns : Entry) (s256 : String) (now : UInt64)
  | resolved (columns : Entry) (s256 : String) (mission : MissionEntry)
      (now : UInt64)
  | persisted (columns : Entry) (s256 : String) (mission : MissionEntry)
      (now : UInt64)

structure MissionHost (T : Type) where
  registry : HostRegistry
  ledger : List Entry
  clock : UInt64
  tasks : T → MissionTask

inductive HostRequest where
  | decide (request : DecisionRequest)
  | approve (columns : Entry) (s256 : String) (mission : MissionEntry)
  | terminate (columns : Entry) (s256 : String)

inductive HostStep (T : Type) where
  | tick (now : UInt64)
  | start (task : T) (request : HostRequest)
  | advance (task : T) (lands : Bool)

def HostRequest.begun (request : HostRequest) (now : UInt64) :
    MissionTask :=
  match request with
  | .decide request => .deciding request now
  | .approve columns s256 mission => .approving columns s256 mission now
  | .terminate columns s256 => .terminating columns s256 now

namespace MissionHost

variable {T : Type} [DecidableEq T] (place : MapPath MissionEntry)

def append (ledger : List Entry) (entry : Entry) : List Entry :=
  ledger ++ [{ entry with seq := ledger.length }]

/-- One step of a task: the registry and the ledger after it, and where the
task goes on.  `lands` says whether an append succeeds. -/
def taskStep (registry : HostRegistry) (ledger : List Entry) (lands : Bool) :
    MissionTask → HostRegistry × List Entry × MissionTask
  | .idle => (registry, ledger, .idle)
  | .deciding request now =>
      let bound := bindMission (registry.status place) request.dir
        request.required request.subjectId request.action request.context now
      (registry, ledger, .bound (request.decided bound))
  | .bound entry =>
      -- the status is read and the record appended under the ledger's lock
      match settle (registry.status place) entry with
      | .error _ => (registry, ledger, .idle)
      | .ok entry =>
          (registry, if lands then append ledger entry else ledger, .idle)
  | .approving columns s256 mission now =>
      match registry.status place s256 with
      | .error _ => (registry, ledger, .idle)
      | .ok found =>
          if (found.map MissionEntry.terminated).getD false then
            (registry, ledger, .idle)
          else (registry, ledger, .approved columns s256 mission now)
  | .approved columns s256 mission now =>
      if lands then
        (registry, append ledger (missionEntry columns now mission.approver
          "Mission.Approve" s256), .registering s256 mission now)
      else (registry, ledger, .idle)
  | .registering s256 mission now =>
      ((registry.call place now (.register s256 mission)).1, ledger, .idle)
  | .terminating columns s256 now =>
      match registry.status place s256 with
      | .ok (some mission) =>
          (registry, ledger, .resolved columns s256 mission now)
      | _ => (registry, ledger, .idle)
  | .resolved columns s256 mission now =>
      let after := registry.call place now (.terminate s256)
      match after.2 with
      | .outcome (.ok ()) =>
          (after.1, ledger, .persisted columns s256 mission now)
      | _ => (after.1, ledger, .idle)
  | .persisted columns s256 mission now =>
      (registry, if lands then append ledger (missionEntry columns now
        mission.approver "Mission.Terminate" s256) else ledger, .idle)

def step (host : MissionHost T) : HostStep T → MissionHost T
  | .tick now => { host with clock := now }
  | .start task request =>
      { host with
        tasks := Function.update host.tasks task (request.begun host.clock) }
  | .advance task lands =>
      let after := taskStep place host.registry host.ledger lands
        (host.tasks task)
      { host with
        registry := after.1
        ledger := after.2.1
        tasks := Function.update host.tasks task after.2.2 }

/-- The clock does not go back, a request starts where none is under way, and
a content hash is approved with its own Mission. -/
def Orderly (entryOf : String → MissionEntry) (host : MissionHost T) :
    HostStep T → Prop
  | .tick now => host.clock ≤ now
  | .start task request =>
      host.tasks task = .idle ∧ ∀ columns s256 mission,
        request = .approve columns s256 mission → mission = entryOf s256
  | .advance _ _ => True

end MissionHost

/-! ## What the ledger says -/

/-- A record of the Mission's termination. -/
def Entry.Terminates (entry : Entry) (s256 : String) : Prop :=
  entry.action = "Mission.Terminate" ∧
    entry.mission.map MissionRef.s256 = some s256

/-- A decision, as opposed to a Mission's approval or termination, that allows
under the Mission. -/
def Entry.AllowsUnder (entry : Entry) (s256 : String) : Prop :=
  entry.allowedUnder = some s256 ∧ entry.action ≠ "Mission.Approve" ∧
    entry.action ≠ "Mission.Terminate"

/-- No Allow under a Mission follows a record of its termination. -/
def TerminationFinal (ledger : List Entry) : Prop :=
  ledger.Pairwise fun earlier later =>
    ∀ s256, earlier.Terminates s256 → ¬ later.AllowsUnder s256

end Decern
