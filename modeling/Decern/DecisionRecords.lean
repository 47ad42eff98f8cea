import Decern.DecidePrepare
import Decern.LedgerWriter
import Decern.ShardedLedger
import Mathlib.Tactic

/-!
# Decisions on record

A decision is settled and its record appended under the ledger's lock, and it
is answered as it was recorded.  While a handler waits for the lock others may
append; a write may fail, and a store that failed may have committed.
-/

namespace Decern

open ByteText (Bytes)
open Decide (RecordShard)
open Serde (Value)

variable {P : Platform}

/-! ## The backends -/

/-- A ledger file and its handle; an append that panicked poisons the lock. -/
structure SingleLedger where
  ledger : Ledger
  file : Bytes
  poisoned : Bool

variable (P) in
/-- The ledger a server records on. -/
inductive LedgerBackend where
  | single (path : String) (state : SingleLedger)
  | sharded (ledger : ShardedLedger P) (shards : String → Shard)

/-- A store's call that failed, and whether it had committed. -/
structure StoreFault where
  committed : Bool
  error : LedgerError

/-- What one append meets: what others append before it has the lock, the
registry it reads under it and what fails.  A sharded append may read the
history in a second section, after more from the others. -/
structure Meeting where
  meanwhile : SingleLedger → SingleLedger
  before : (String → Shard) → String → Shard
  registry : String → MissionStatus
  fault : Option WriteFault
  storeFault : Option StoreFault
  between : (String → Shard) → String → Shard
  laterRegistry : String → MissionStatus
  laterFault : Option StoreFault

def poisonedErr : LedgerError :=
  .io "ledger" "ledger mutex poisoned; refusing to serve"

/-- The shard an entry goes to on the sharded backend. -/
def resolved : RecordShard → Except LedgerError String
  | some (.ok shard) => .ok shard
  | some (.error err) => .error (.io "<sharded ledger, shard resolver>" err)
  | none => .error (.io "<sharded ledger, shard resolver>"
      "shard unresolved for sharded backend")

/-- What a section leaves when its store's call came out so. -/
def committedUnder (shards : String → Shard) (name : String)
    (outcome : Except LedgerError RecordOut) (next : Shard) :
    Option StoreFault → (String → Shard) × Except LedgerError RecordOut
  | none => (Function.update shards name next, outcome)
  | some fault =>
      (if fault.committed then Function.update shards name next else shards,
        .error fault.error)

/-- `append_revised`: through the cursor, or else through the history. -/
def ShardedLedger.appendRevised (ledger : ShardedLedger P)
    (meeting : Meeting) (shards : String → Shard) (name : String)
    (entry : Entry) : (String → Shard) × Except LedgerError RecordOut :=
  match ledger.appendAtHead name (shards name) entry
      (settle meeting.registry) with
  | some (outcome, next) =>
      committedUnder shards name outcome next meeting.storeFault
  | none =>
      match meeting.storeFault with
      | some fault => (shards, .error fault.error)
      | none =>
          let shards := meeting.between shards
          let result := ledger.appendThroughHistory name (shards name) entry
            (settle meeting.laterRegistry)
          committedUnder shards name result.1 result.2 meeting.laterFault

/-! ## Recording -/

/-- One decision, settled under the lock. -/
def recordDecision (meeting : Meeting) (backend : LedgerBackend P)
    (shard : RecordShard) (entry : Entry) :
    LedgerBackend P × Except LedgerError RecordOut :=
  match backend with
  | .single path state =>
      let state := meeting.meanwhile state
      if state.poisoned then (.single path state, .error poisonedErr)
      else
        match settle meeting.registry entry with
        | .error error => (.single path state, .error error)
        | .ok settled =>
            let result := state.ledger.append P path state.file settled
              meeting.fault
            (.single path ⟨result.1, result.2.1, false⟩, result.2.2)
  | .sharded ledger shards =>
      let shards := meeting.before shards
      match resolved shard with
      | .error error => (.sharded ledger shards, .error error)
      | .ok name =>
          let result := ledger.appendRevised meeting shards name entry
          (.sharded ledger result.1, result.2)

/-- A decision to record, and what its append meets. -/
structure Recording where
  meeting : Meeting
  shard : RecordShard
  entry : Entry

/-- Each decision by an append of its own, until one fails. -/
def recordEach (backend : LedgerBackend P) (landed : List RecordOut) :
    List Recording →
      LedgerBackend P × List RecordOut × Except LedgerError Unit
  | [] => (backend, landed, .ok ())
  | recording :: rest =>
      match recordDecision recording.meeting backend recording.shard
          recording.entry with
      | (backend, .error error) => (backend, landed, .error error)
      | (backend, .ok record) => recordEach backend (landed ++ [record]) rest

/-- The decisions settled in turn, each with what its write meets. -/
def settleEach (recordings : List Recording) :
    Except LedgerError (List (Entry × Option WriteFault)) :=
  recordings.mapM fun recording =>
    (settle recording.meeting.registry recording.entry).map fun settled =>
      (settled, recording.meeting.fault)

/-- A batch's decisions: one durable step on a file, once its lock is held,
and an append each on shards.  The records that landed, and how it came out. -/
def recordDecisions (backend : LedgerBackend P)
    (meanwhile : SingleLedger → SingleLedger) (recordings : List Recording)
    (syncFault : Option String) :
    LedgerBackend P × List RecordOut × Except LedgerError Unit :=
  match backend with
  | .single path state =>
      let state := meanwhile state
      if state.poisoned then (.single path state, [], .error poisonedErr)
      else
        match settleEach recordings with
        | .error error => (.single path state, [], .error error)
        | .ok settled =>
            let result := state.ledger.appendAll P path state.file settled
              syncFault
            (.single path ⟨result.1, result.2.1, false⟩, result.2.2)
  | .sharded ledger shards => recordEach (.sharded ledger shards) [] recordings

/-! ## Answering -/

/-- A decision with its reasons and errors, when there are any. -/
def evaluationBody (decision : Bool) (reasons errors : List String) :
    Value :=
  let context :=
    (if reasons.isEmpty then []
      else [("reasons", Value.array (reasons.map .string))]) ++
    (if errors.isEmpty then []
      else [("errors", Value.array (errors.map fun error =>
        .string (RustText.bounded error 512)))])
  .object ([("decision", .bool decision)] ++
    if context.isEmpty then [] else [("context", .object context)])

end Decern
