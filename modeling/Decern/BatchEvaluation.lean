import Decern.BatchRequest
import Decern.DecisionRecords
import Mathlib.Tactic

/-!
# Evaluating a batch

Every item is admitted, then each is evaluated in order and what was decided
is recorded: item by item where the exchange may stop early, all at the end
where it may not.  Nothing is served unless every record landed.
-/

namespace Decern.Batch

open Decide (Authenticated DecideReq Evaluated Host RecordShard Refusal
  Status admitNamed admitReq evaluateOne)
open Serde (Map SerdeError Value)

/-! ## Answers -/

inductive Response where
  | refused (refusal : Refusal)
  | notRecorded (error : LedgerError)
  | evaluation (body : Value)
  | evaluations (results : List Value)

/-- An item that was not decided says why. -/
def undecided (status : Status) (code message : String) : Value :=
  .object [("decision", .bool false),
    ("context", .object [("error", .object [
      ("status", .number (.posInt (UInt64.ofNat status.code))),
      ("code", .string code), ("message", .string message)])])]

/-- What is served for an item, and what must land before it is. -/
structure Answer where
  decision : Bool
  body : Value
  errors : List String
  record : Option (RecordShard × Entry)

def undecidedAnswer (status : Status) (code message : String) : Answer :=
  { decision := false, body := undecided status code message, errors := [],
    record := none }

variable {P : Platform} {S Q E C : Type}

variable (P) in
def answer (host : Host S Q E C) (caller : Option Authenticated)
    (top : BatchReq) (index : ℕ) (item : Value)
    (inheritsAnOversizeDefault : Bool) : Answer :=
  if inheritsAnOversizeDefault then
    undecidedAnswer .payloadTooLarge "context_too_large"
      "context exceeds 64 KiB, properties included"
  else
    match merged P.serdeMessage top (some index) item with
    | .error detail => undecidedAnswer .badRequest "invalid_request" detail
    | .ok req =>
        match evaluateOne host caller req with
        | .error refusal =>
            undecidedAnswer refusal.status refusal.error refusal.detail
        | .ok e =>
            { decision := e.decision
              body := evaluationBody e.decision e.reasons e.errors
              errors := e.errors
              record := some (e.shard, e.entry) }

/-! ## Sizes -/

/-- Addition of a `usize`. -/
def saturatingAdd (a b : ℕ) : ℕ := min (a + b) (2 ^ 64 - 1)

variable (P) in
def jsonLen (value : Value) : ℕ :=
  (String.ofList (JsonText.print (value.toDoc P.floats))).utf8ByteSize

variable (P) in
/-- The defaults too large to evaluate. -/
def oversizeDefault (top : BatchReq) (key : String) : Bool :=
  (top.defaultFor key).any (Decide.contextTooLarge P.floats)

variable (P) in
/-- What the items would put on the ledger. -/
def recordedBytes (top : BatchReq) (items : List Value) : ℕ :=
  (items.map fun item =>
    (keys.map fun key =>
      match item.get key with
      | some own => jsonLen P own
      | none =>
          if oversizeDefault P top key then 0
          else ((top.defaultFor key).map (jsonLen P)).getD 0).foldl
        saturatingAdd 0).foldl saturatingAdd 0

variable (P) in
def inheritsOversize (top : BatchReq) (item : Value) : Bool :=
  keys.any fun key => oversizeDefault P top key &&
    !(item.asObject.any fun members => Map.containsKey members key)

/-! ## One item after the other -/

def Semantic.stops : Semantic → Bool → Bool
  | .executeAll, _ => false
  | .denyOnFirstDeny, decision => !decision
  | .permitOnFirstPermit, decision => decision

/-- What an item is evaluated and recorded in. -/
structure Moment (S Q E C : Type) where
  host : Host S Q E C
  meeting : Meeting

/-- What the loop keeps: the answers, and the decisions still to record with
the answers they belong to. -/
structure Progress where
  results : List Value := []
  decided : List Recording := []
  decidedItems : List (ℕ × List String) := []

def Progress.push (progress : Progress) (body : Value) : Progress :=
  { progress with results := progress.results ++ [body] }

/-- An item's answer as it is served, its decision, and the record of it that
landed. -/
structure Settled where
  decision : Bool
  body : Value
  landed : Option RecordOut

/-- A decision is recorded at once when the exchange may stop on it, and kept
for the end when it may not. -/
def recordItem (semantic : Semantic) (meeting : Meeting)
    (backend : LedgerBackend P) (progress : Progress) (a : Answer) :
    LedgerBackend P × Except LedgerError (Settled × Progress) :=
  match semantic, a.record with
  | .executeAll, some (shard, entry) =>
      (backend, .ok (⟨a.decision, a.body, none⟩,
        { progress with
          decided := progress.decided ++ [⟨meeting, shard, entry⟩]
          decidedItems := progress.decidedItems ++
            [(progress.results.length, a.errors)] }))
  | _, some (shard, entry) =>
      match recordDecision meeting backend shard entry with
      | (backend, .error error) => (backend, .error error)
      | (backend, .ok record) =>
          (backend, .ok (⟨record.entry.decision, evaluationBody
            record.entry.decision record.entry.reasons a.errors,
            some record⟩, progress))
  | _, none => (backend, .ok (⟨a.decision, a.body, none⟩, progress))

/-- The items from `index` on. -/
def runItems (caller : Option Authenticated) (top : BatchReq)
    (semantic : Semantic) (moments : ℕ → Moment S Q E C) :
    LedgerBackend P → List RecordOut → Progress → ℕ → List Value →
      LedgerBackend P × List RecordOut × Except LedgerError Progress
  | backend, landed, progress, _, [] => (backend, landed, .ok progress)
  | backend, landed, progress, index, item :: rest =>
      let moment := moments index
      let a := answer P moment.host caller top index item
        (inheritsOversize P top item)
      match recordItem semantic moment.meeting backend progress a with
      | (backend, .error error) => (backend, landed, .error error)
      | (backend, .ok (settled, progress)) =>
          let landed := landed ++ settled.landed.toList
          let progress := progress.push settled.body
          if semantic.stops settled.decision then
            (backend, landed, .ok progress)
          else runItems caller top semantic moments backend landed progress
            (index + 1) rest

/-- Each decision is served as it was recorded. -/
def servedAsRecorded (results : List Value)
    (decidedItems : List (ℕ × List String)) (records : List RecordOut) :
    List Value :=
  (decidedItems.zip records).foldl (fun results decided =>
    results.set decided.1.1 (evaluationBody decided.2.entry.decision
      decided.2.entry.reasons decided.1.2)) results

/-! ## The exchange -/

/-- One request by itself. -/
def decideOne (caller : Option Authenticated) (moment : Moment S Q E C)
    (backend : LedgerBackend P) (req : DecideReq) :
    LedgerBackend P × List RecordOut × Response :=
  match admitReq caller req with
  | some refusal => (backend, [], .refused refusal)
  | none =>
      match evaluateOne moment.host caller req with
      | .error refusal => (backend, [], .refused refusal)
      | .ok e =>
          match recordDecision moment.meeting backend e.shard e.entry with
          | (backend, .error error) => (backend, [], .notRecorded error)
          | (backend, .ok record) =>
              (backend, [record], .evaluation (evaluationBody
                record.entry.decision record.entry.reasons e.errors))

/-- What the decisions of an exchange that runs to its end are recorded in. -/
structure Closing where
  meanwhile : SingleLedger → SingleLedger
  syncFault : Option String

/-- The items run, and then what is still to record recorded. -/
def runExchange (caller : Option Authenticated) (top : BatchReq)
    (semantic : Semantic) (moments : ℕ → Moment S Q E C) (closing : Closing)
    (backend : LedgerBackend P) (items : List Value) :
    LedgerBackend P × List RecordOut × Response :=
  match runItems caller top semantic moments backend [] {} 0 items with
  | (backend, landed, .error error) => (backend, landed, .notRecorded error)
  | (backend, landed, .ok progress) =>
      if progress.decided.isEmpty then
        (backend, landed, .evaluations progress.results)
      else
        match recordDecisions backend closing.meanwhile progress.decided
            closing.syncFault with
        | (backend, records, .error error) =>
            (backend, landed ++ records, .notRecorded error)
        | (backend, records, .ok ()) =>
            (backend, landed ++ records, .evaluations
              (servedAsRecorded progress.results progress.decidedItems
                records))

/-- `quoted` is a name as an error quotes it. -/
def evaluateAll (quoted : String → String) (caller : Option Authenticated)
    (top : BatchReq) (moments : ℕ → Moment S Q E C) (closing : Closing)
    (backend : LedgerBackend P) :
    LedgerBackend P × List RecordOut × Response :=
  match Semantic.parse quoted (top.options.bind
      Options.evaluationsSemantic) with
  | .error detail => (backend, [], .refused (.invalidRequest detail))
  | .ok semantic =>
      let items := top.evaluations.getD []
      if items.isEmpty then
        match merged P.serdeMessage top none (.object []) with
        | .error detail => (backend, [], .refused (.invalidRequest detail))
        | .ok req => decideOne caller (moments 0) backend req
      else if 1000 < items.length then
        (backend, [], .refused (.invalidRequest ("evaluations: " ++
          toString items.length ++
          " items; at most 1000 in one request")))
      else
        match items.findSome? fun item =>
            admitNamed caller (facts top item) with
        | some refusal => (backend, [], .refused refusal)
        | none =>
            if 16 * 1024 * 1024 < recordedBytes P top items then
              (backend, [], .refused (.tooLarge "batch_too_large"
                "the evaluations would record more than 16 MiB"))
            else runExchange caller top semantic moments closing backend items

end Decern.Batch
