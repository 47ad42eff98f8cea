import Decern.PostgresTables
import Mathlib.Tactic

/-!
# The actor of the database head store

One thread owns the connection of a process.  A caller queues a job and meets
the thread on channels of no capacity: it is handed the shard, runs its
callback, hands its decision back and waits for the outcome.  Any call to the
database may fail, the connection may close, a caller may go away and the
thread may stop, each at any point.
-/

namespace Decern.Postgres

/-! ## Jobs and answers -/

inductive Job where
  | withShard (shard : String) (history : Bool)
  | listShards
  deriving DecidableEq, Repr

/-- How a job ended, for the actor to answer on the channel its caller waits
on: `loaded`, `done` and the listing's own. -/
inductive Answer where
  | unloaded (e : StoreError)
  | ran (outcome : Except StoreError Unit)
  | listed (shards : Except StoreError (List String))

def actorGone : StoreError :=
  .invalid "postgres ledger-head actor thread is gone"

def queueFull (depth : ℕ) : StoreError :=
  .io "<postgres head store>" ("the store's queue is full (" ++
    toString depth ++ " sections waiting): the database is not keeping up")

def callerDisconnected : StoreError :=
  .invalid "caller disconnected before running the critical section"

def sectionAborted : StoreError :=
  .invalid "critical section aborted before returning a decision"

/-! ## The two sides -/

variable {T : Type}

/-- Where the actor thread is, with the call it serves. -/
inductive Actor (T : Type) where
  | receiving
  | beginning (call : T)
  | locking (call : T)
  | readingHead (call : T)
  | readingRecords (call : T) (cursor : Option HeadCursor)
  | handing (call : T) (state : ShardState)
  | awaitingDecision (call : T)
  | insertingRecord (call : T) (cursor : HeadCursor) (row : RecordRow)
  | insertingHead (call : T) (row : HeadRow)
  | committing (call : T)
  | listing (call : T)
  | ended (call : T) (answer : Answer)
  | answering (call : T) (answer : Answer)
  | stopped

/-- The call the actor serves. -/
def Actor.serves : Actor T → Option T
  | .receiving | .stopped => none
  | .beginning t | .locking t | .readingHead t | .readingRecords t _
  | .handing t _ | .awaitingDecision t | .insertingRecord t _ _
  | .insertingHead t _ | .committing t | .listing t | .ended t _
  | .answering t _ => some t

/-- Where a caller is. -/
inductive Phase where
  | uncalled
  | awaitingLoaded
  | running
  | sendingDecision
  | awaitingDone
  | awaitingList
  | returned (outcome : Except StoreError Unit)
  | listed (shards : Except StoreError (List String))
  | gone

/-- The caller has let go of its ends of the channels. -/
def Phase.over : Phase → Bool
  | .returned _ | .listed _ | .gone => true
  | _ => false

/-- The call was made and is not over. -/
def Phase.pending : Phase → Bool
  | .uncalled | .returned _ | .listed _ | .gone => false
  | _ => true

/-- The call was made and its caller has not left it. -/
def Phase.present : Phase → Bool
  | .uncalled | .gone => false
  | _ => true

/-- The caller has its answer. -/
def Phase.answered : Phase → Bool
  | .returned _ | .listed _ => true
  | _ => false

/-- A call: the states its callback was run on and what it decided. -/
structure Call where
  phase : Phase := .uncalled
  saw : List ShardState := []
  decided : Option ShardWrite := none

/-- A host's transaction at the database. -/
structure Tx (T : Type) where
  call : T
  lock : Option ℤ := none
  record : Option RecordRow := none
  head : Option HeadRow := none
  /-- `COMMIT` is on its way -/
  committing : Bool := false

/-- A process's store: its actor, its queue, its connection, the transaction
the database holds for it and its callers. -/
structure Node (T : Type) where
  actor : Actor T := .receiving
  queue : List T := []
  connected : Bool := true
  closed : Bool := false
  session : Option (Tx T) := none
  calls : T → Call := fun _ => {}

/-- What a process is started with, and the job of each call made on it. -/
structure Deployment (T : Type) where
  depth : ℕ
  text : SignersText
  job : T → Job

namespace Deployment

variable (D : Deployment T)

def shard (t : T) : String :=
  match D.job t with
  | .withShard shard _ => shard
  | .listShards => ""

def history (t : T) : Bool :=
  match D.job t with
  | .withShard _ history => history
  | .listShards => false

/-- What a queued call waits for. -/
def awaiting (t : T) : Phase :=
  match D.job t with
  | .withShard _ _ => .awaitingLoaded
  | .listShards => .awaitingList

/-- A call that ends with an error. -/
def failed (t : T) (e : StoreError) : Phase :=
  match D.job t with
  | .withShard _ _ => .returned (.error e)
  | .listShards => .listed (.error e)

/-- A job received. -/
def received (t : T) : Actor T :=
  match D.job t with
  | .withShard _ _ => .beginning t
  | .listShards => .listing t

/-- The tables once a transaction is committed. -/
def commit (tables : Tables) (tx : Tx T) : Tables :=
  let written := match tx.record with
    | none => tables
    | some row => tables.insertRecord (D.shard tx.call) row
  match tx.head with
  | none => written
  | some row => written.upsertHead (D.shard tx.call) row

end Deployment

namespace Node

/-- The advisory lock the database holds for a process. -/
def lock (node : Node T) : Option ℤ := node.session.bind Tx.lock

variable [DecidableEq T]

def set (node : Node T) (t : T) (call : Call) : Node T :=
  { node with calls := Function.update node.calls t call }

def move (node : Node T) (t : T) (phase : Phase) : Node T :=
  node.set t { node.calls t with phase := phase }

/-- The transaction is dropped: it rolls back, unless the connection is gone
and the database is left with it. -/
def ends (node : Node T) (t : T) (answer : Answer) : Node T :=
  { node with
      actor := .ended t answer
      session := if node.connected then none else node.session }

/-- `tx.commit()` is called. -/
def commits (node : Node T) (t : T) : Node T :=
  { node with
      actor := .committing t
      session :=
        if node.connected then
          node.session.map fun (tx : Tx T) => { tx with committing := true }
        else node.session }

variable (D : Deployment T)

/-- The actor with the caller's decision. -/
def decide (node : Node T) (t : T) : ShardWrite → Node T
  | .error e => node.ends t (.ran (.error e))
  | .ok none => node.commits t
  | .ok (some (cursor, record)) =>
      match Tables.recordRow cursor record with
      | .error e => node.ends t (.ran (.error e))
      | .ok row => { node with actor := .insertingRecord t cursor row }

/-- The head's row is made once the record is inserted. -/
def recordInserted (node : Node T) (t : T) (cursor : HeadCursor)
    (row : RecordRow) : Node T :=
  let written := { node with
    session := node.session.map fun (tx : Tx T) =>
      { tx with record := some row } }
  match Tables.headRow D.text cursor with
  | .error e => written.ends t (.ran (.error e))
  | .ok head => { written with actor := .insertingHead t head }

/-- The head is written, and `tx.commit()` called. -/
def headInserted (node : Node T) (t : T) (row : HeadRow) : Node T :=
  let written : Node T := { node with
    session := node.session.map fun (tx : Tx T) =>
      { tx with head := some row } }
  written.commits t

/-- The head is read. -/
def headRead (node : Node T) (t : T) (cursor : Option HeadCursor) : Node T :=
  { node with
      actor := if D.history t then .readingRecords t cursor
        else .handing t (cursor, []) }

end Node

/-! ## Steps -/

/-- Whose step it is. -/
inductive Move (T : Type) where
  | calls (t : T)
  | actor
  | caller (t : T)
  | leaves (t : T)
  | fault

/-- The step is one the store and its callers take by themselves. -/
def Move.own : Move T → Bool
  | .actor | .caller _ => true
  | _ => false

/-- The calls to the database of one section, each of which may fail. -/
inductive Loading : Actor T → T → Prop where
  | beginning (t) : Loading (.beginning t) t
  | locking (t) : Loading (.locking t) t
  | readingHead (t) : Loading (.readingHead t) t
  | readingRecords (t cursor) : Loading (.readingRecords t cursor) t

inductive Writing : Actor T → T → Prop where
  | insertingRecord (t cursor row) : Writing (.insertingRecord t cursor row) t
  | insertingHead (t row) : Writing (.insertingHead t row) t
  | committing (t) : Writing (.committing t) t

/-- An answer, and the caller that waits for it with what it returns. -/
inductive Answers : Answer → Phase → Phase → Prop where
  | unloaded (e) :
      Answers (.unloaded e) .awaitingLoaded (.returned (.error e))
  | ran (outcome) : Answers (.ran outcome) .awaitingDone (.returned outcome)
  | listed (shards) : Answers (.listed shards) .awaitingList (.listed shards)

variable [DecidableEq T]

/-- The steps of one process, with the transaction a step commits.  `free`
are the advisory locks no process holds. -/
inductive Acts (D : Deployment T) (tables : Tables) (free : ℤ → Prop)
    (node : Node T) : Move T → Node T → Option (Tx T) → Prop where
  -- `enqueue`
  | queued {t} (hcall : (node.calls t).phase = .uncalled)
      (hactor : node.actor ≠ .stopped) (hroom : node.queue.length < D.depth) :
      Acts D tables free node (.calls t)
        { node.move t (D.awaiting t) with queue := node.queue ++ [t] } none
  | full {t} (hcall : (node.calls t).phase = .uncalled)
      (hactor : node.actor ≠ .stopped)
      (hfull : D.depth ≤ node.queue.length) :
      Acts D tables free node (.calls t)
        (node.move t (D.failed t (queueFull D.depth))) none
  | unserved {t} (hcall : (node.calls t).phase = .uncalled)
      (hactor : node.actor = .stopped) :
      Acts D tables free node (.calls t)
        (node.move t (D.failed t actorGone)) none
  -- `actor_main`
  | receives {t rest} (hactor : node.actor = .receiving)
      (hqueue : node.queue = t :: rest) :
      Acts D tables free node .actor
        { node with actor := D.received t, queue := rest } none
  -- `load`
  | begins {t} (hactor : node.actor = .beginning t)
      (hconnected : node.connected = true) :
      Acts D tables free node .actor
        { node with actor := .locking t, session := some { call := t } } none
  | locks {t} (hactor : node.actor = .locking t)
      (hconnected : node.connected = true)
      (hfree : free (advisoryKey (D.shard t))) :
      Acts D tables free node .actor
        { node with
            actor := .readingHead t
            session := node.session.map fun (tx : Tx T) =>
              { tx with lock := some (advisoryKey (D.shard t)) } } none
  | readsHead {t cursor} (hactor : node.actor = .readingHead t)
      (hconnected : node.connected = true)
      (hread : tables.readHead D.text (D.shard t) = .ok cursor) :
      Acts D tables free node .actor (node.headRead D t cursor) none
  | headUnreadable {t e} (hactor : node.actor = .readingHead t)
      (hconnected : node.connected = true)
      (hread : tables.readHead D.text (D.shard t) = .error e) :
      Acts D tables free node .actor (node.ends t (.unloaded e)) none
  | readsRecords {t cursor records}
      (hactor : node.actor = .readingRecords t cursor)
      (hconnected : node.connected = true)
      (hread : tables.readRecords (D.shard t) = .ok records) :
      Acts D tables free node .actor
        { node with actor := .handing t (cursor, records) } none
  | recordsUnreadable {t cursor e}
      (hactor : node.actor = .readingRecords t cursor)
      (hconnected : node.connected = true)
      (hread : tables.readRecords (D.shard t) = .error e) :
      Acts D tables free node .actor (node.ends t (.unloaded e)) none
  | loadFails {t} (hactor : Loading node.actor t) (message : String) :
      Acts D tables free node .actor
        (node.ends t (.unloaded (dbError message))) none
  -- `run_loaded` and `section`, meeting on `loaded` and `decision`
  | hands {t state} (hactor : node.actor = .handing t state)
      (hcall : (node.calls t).phase = .awaitingLoaded) :
      Acts D tables free node .actor
        { node.set t { node.calls t with
            phase := .running, saw := (node.calls t).saw ++ [state] } with
          actor := .awaitingDecision t } none
  | unhanded {t state} (hactor : node.actor = .handing t state)
      (hcall : (node.calls t).phase.over = true) :
      Acts D tables free node .actor
        (node.ends t (.ran (.error callerDisconnected))) none
  | decides {t} (hcall : (node.calls t).phase = .running)
      (decision : ShardWrite) :
      Acts D tables free node (.caller t)
        (node.set t { node.calls t with
          phase := .sendingDecision, decided := some decision }) none
  | ships {t decision} (hactor : node.actor = .awaitingDecision t)
      (hcall : (node.calls t).phase = .sendingDecision)
      (hdecided : (node.calls t).decided = some decision) :
      Acts D tables free node .actor
        ((node.move t .awaitingDone).decide t decision) none
  | undecided {t} (hactor : node.actor = .awaitingDecision t)
      (hcall : (node.calls t).phase.over = true) :
      Acts D tables free node .actor
        (node.ends t (.ran (.error sectionAborted))) none
  -- the writes
  | insertsRecord {t cursor row}
      (hactor : node.actor = .insertingRecord t cursor row)
      (hconnected : node.connected = true)
      (hkey : tables.hasRecord (D.shard t) row.seq = false) :
      Acts D tables free node .actor (node.recordInserted D t cursor row) none
  | insertsHead {t row} (hactor : node.actor = .insertingHead t row)
      (hconnected : node.connected = true) :
      Acts D tables free node .actor (node.headInserted t row) none
  | commits {t tx} (hactor : node.actor = .committing t)
      (hconnected : node.connected = true) (hsession : node.session = some tx) :
      Acts D tables free node .actor (node.ends t (.ran (.ok ()))) (some tx)
  | writeFails {t} (hactor : Writing node.actor t) (message : String) :
      Acts D tables free node .actor
        (node.ends t (.ran (.error (dbError message)))) none
  -- `list_shards_impl`
  | lists {t} (hactor : node.actor = .listing t)
      (hconnected : node.connected = true) :
      Acts D tables free node .actor
        { node with actor := .ended t (.listed (.ok tables.listShards)) } none
  | listFails {t} (hactor : node.actor = .listing t) (message : String) :
      Acts D tables free node .actor
        { node with
            actor := .ended t (.listed (.error (dbError message))) } none
  -- `note_closed` and the answer
  | notes {t answer} (hactor : node.actor = .ended t answer) :
      Acts D tables free node .actor
        { node with
            actor := .answering t answer
            closed := node.closed || !node.connected } none
  | answers {t answer phase} (hactor : node.actor = .answering t answer)
      (hcall : Answers answer (node.calls t).phase phase) :
      Acts D tables free node .actor
        { node.move t phase with actor := .receiving } none
  | unanswered {t answer} (hactor : node.actor = .answering t answer)
      (hcall : (node.calls t).phase.over = true) :
      Acts D tables free node .actor { node with actor := .receiving } none
  -- the actor's ends of a job that is neither queued nor served are dropped
  | unsent {t} (hcall : (node.calls t).phase = .sendingDecision)
      (hqueue : t ∉ node.queue) (hactor : node.actor.serves ≠ some t) :
      Acts D tables free node (.caller t) (node.move t .awaitingDone) none
  | orphaned {t} (hpending : (node.calls t).phase = .awaitingLoaded ∨
        (node.calls t).phase = .awaitingDone ∨
        (node.calls t).phase = .awaitingList)
      (hqueue : t ∉ node.queue) (hactor : node.actor.serves ≠ some t) :
      Acts D tables free node (.caller t)
        (node.move t (D.failed t actorGone)) none
  -- a caller goes away
  | leaves {t} (hcall : (node.calls t).phase.pending = true) :
      Acts D tables free node (.leaves t) (node.move t .gone) none
  -- the thread stops, and its connection and its queue with it
  | stops (hactor : node.actor ≠ .stopped) :
      Acts D tables free node .fault
        { node with actor := .stopped, queue := [], connected := false } none
  -- the connection closes, and the database ends the transaction it is left
  -- with; it may have been told to commit
  | loses : Acts D tables free node .fault
      { node with connected := false } none
  | abandons (hconnected : node.connected = false) :
      Acts D tables free node .fault { node with session := none } none
  | completes {tx} (hconnected : node.connected = false)
      (hsession : node.session = some tx) (hcommitting : tx.committing = true) :
      Acts D tables free node .fault { node with session := none } (some tx)

end Decern.Postgres
