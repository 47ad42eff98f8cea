import Decern.MissionApproval
import Mathlib.Tactic

/-!
# Approvals on record

The requests of one server over one registry and one ledger: approvals,
terminations, and decisions under Missions, one or a batch at a time.  Any read
or write may fail, and what a failed write left behind may stay.
-/

namespace Decern

open Identity (Jose Mission approve)

/-! ## The server -/

/-- How a step comes out: done, or failed, with so much of what it wrote
kept. -/
inductive StepOutcome where
  | done
  | failed (error : StoreError) (kept : ℕ)

inductive ServerTask where
  | transition (task : MissionTask)
  | deciding (decided : List Entry) (rest : List DecisionRequest)
  | decided (entries : List Entry)
  | settled (entries rest : List Entry)

structure MissionServer (T : Type) where
  registry : HostRegistry
  ledger : List Entry
  clock : UInt64
  tasks : T → ServerTask

/-- Decisions are a batch, or a batch of one. -/
inductive ServerRequest where
  | decide (requests : List DecisionRequest)
  | approve (columns : Entry) (mission : Mission)
  | terminate (columns : Entry) (s256 : String)

inductive ServerStep (T : Type) where
  | tick (now : UInt64)
  | start (task : T) (request : ServerRequest)
  | advance (task : T) (outcome : StepOutcome)

namespace HostRegistry

/-- A write that was kept and not acknowledged: the file has it, the handle's
copy does not. -/
def unacknowledged (before after : HostRegistry) : HostRegistry :=
  match before, after with
  | .onFile _ handle, .onFile file _ => .onFile file handle
  | _, after => after

/-- The registry after a write that failed. -/
def failedCall (place : MapPath MissionEntry) (registry : HostRegistry)
    (kept : ℕ) (now : UInt64) (request : RegistryCall) : HostRegistry :=
  if kept = 0 then registry
  else registry.unacknowledged (registry.call place now request).1

/-- The registry holds the Mission, in memory, in its file or in its copy. -/
def Holding (registry : HostRegistry) (s256 : String)
    (entry : MissionEntry) : Prop :=
  match registry with
  | .inMemory map => map[s256]? = some entry
  | .onFile file handle =>
      (∃ map : Missions, file.content = .holds map ∧
        map[s256]? = some entry) ∨
      handle.map[s256]? = some entry

end HostRegistry

namespace MissionServer

variable {T : Type} [DecidableEq T] {S P : Type} (J : Jose)
  (model : Model S P) (sharded : Bool) (place : MapPath MissionEntry)

/-- What a request starts with.  A Mission that may not be approved is refused
before anything is read or written. -/
def begun (now : UInt64) : ServerRequest → ServerTask
  | .decide requests => .deciding [] requests
  | .approve columns mission =>
      match approve J model { mission with approvedAt := now } now with
      | .error _ => .transition .idle
      | .ok approved => .transition (.approving
          { columns with context := approved.context } approved.s256
          approved.entry now)
  | .terminate columns s256 =>
      .transition (.terminating columns s256 now)

/-- A transition's step that failed. -/
def failedStep (registry : HostRegistry) (ledger : List Entry) (kept : ℕ) :
    MissionTask → HostRegistry × List Entry
  | .approved columns s256 mission now =>
      (registry, if kept = 0 then ledger else
        MissionHost.append ledger (missionEntry columns now mission.approver
          "Mission.Approve" s256))
  | .registering s256 mission now =>
      (registry.failedCall place kept now (.register s256 mission), ledger)
  | .resolved _ s256 _ now =>
      (registry.failedCall place kept now (.terminate s256), ledger)
  | .persisted columns s256 mission now =>
      (registry, if kept = 0 then ledger else
        MissionHost.append ledger (missionEntry columns now mission.approver
          "Mission.Terminate" s256))
  | _ => (registry, ledger)

/-- The registry as a step reads it. -/
def statusAt (registry : HostRegistry) (outcome : StepOutcome)
    (s256 : String) : MissionStatus :=
  match outcome with
  | .done => registry.status place s256
  | .failed error _ => .error error

def appendAll (ledger entries : List Entry) : List Entry :=
  entries.foldl MissionHost.append ledger

/-- What is settled and recorded in one step: a batch on the one ledger, each
record of its own where there are shards. -/
def together (entries : List Entry) : List Entry × List Entry :=
  if sharded then (entries.take 1, entries.drop 1) else (entries, [])

def taskStep (registry : HostRegistry) (ledger : List Entry)
    (clock : UInt64) (outcome : StepOutcome) :
    ServerTask → HostRegistry × List Entry × ServerTask
  | .transition task =>
      match outcome with
      | .done =>
          let after := MissionHost.taskStep place registry ledger true task
          (after.1, after.2.1, .transition after.2.2)
      | .failed _ kept =>
          let after := failedStep place registry ledger kept task
          (after.1, after.2, .transition .idle)
  | .deciding decided [] => (registry, ledger, .decided decided)
  | .deciding decided (request :: rest) =>
      let bound := bindMission (statusAt place registry outcome) request.dir
        request.required request.subjectId request.action request.context
        clock
      (registry, ledger, .deciding (decided ++ [request.decided bound]) rest)
  | .decided entries =>
      let (first, rest) := together sharded entries
      match first.mapM (settle (statusAt place registry outcome)) with
      | .error _ => (registry, ledger, .transition .idle)
      | .ok settled => (registry, ledger, .settled settled rest)
  | .settled entries rest =>
      match outcome with
      | .done => (registry, appendAll ledger entries,
          if rest.isEmpty then .transition .idle else .decided rest)
      | .failed _ kept =>
          (registry, appendAll ledger (entries.take kept), .transition .idle)

def step (server : MissionServer T) : ServerStep T → MissionServer T
  | .tick now => { server with clock := now }
  | .start task request =>
      { server with
        tasks := Function.update server.tasks task
          (begun J model server.clock request) }
  | .advance task outcome =>
      let after := taskStep sharded place server.registry server.ledger
        server.clock outcome (server.tasks task)
      { server with
        registry := after.1
        ledger := after.2.1
        tasks := Function.update server.tasks task after.2.2 }

/-- Nothing registered, nothing recorded, nothing under way. -/
structure Empty (server : MissionServer T) : Prop where
  registry : ∀ s256 entry, ¬ server.registry.Holding s256 entry
  ledger : server.ledger = []
  tasks : ∀ task, server.tasks task = .transition .idle

end MissionServer

end Decern
