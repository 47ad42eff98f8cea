import Decern.RecordSigner
import Mathlib.Tactic

/-!
# The sharded ledger

A shard is a chain that several processes append to, each under its own key
and keyring, through a store that runs one section on a shard at a time.  A
section sees the shard's cursor, or its cursor and records, and writes one
record or none.  The cursor carries the runs of the keys that signed, so that
an append can judge its own key without reading the history.
-/

namespace Decern

open Serde (Value)

/-! ## What the store keeps -/

/-- One key's run in a shard. -/
abbrev KeySpan := Succession.Span String

/-- The keys that signed a shard, as of `through` records. -/
structure ShardSigners where
  through : ℕ
  spans : List KeySpan
  deriving DecidableEq, Repr

structure HeadCursor where
  nextSeq : ℕ
  lastHash : String
  signers : Option ShardSigners
  deriving DecidableEq, Repr

structure StoredRecord where
  seq : ℕ
  recordJson : String
  deriving DecidableEq, Repr

structure Shard where
  cursor : Option HeadCursor := none
  records : List StoredRecord := []
  deriving DecidableEq, Repr

namespace Shard

def lines (shard : Shard) : List String :=
  shard.records.map StoredRecord.recordJson

/-- The number the next record gets. -/
def nextSeq (shard : Shard) : ℕ :=
  (shard.cursor.map HeadCursor.nextSeq).getD 0

def lastHash (shard : Shard) : String :=
  (shard.cursor.map HeadCursor.lastHash).getD genesis

/-- What a section writes. -/
def commit (shard : Shard) (cursor : HeadCursor) (line : String) : Shard where
  cursor := some cursor
  records := shard.records ++ [⟨cursor.nextSeq - 1, line⟩]

end Shard

variable (P : Platform)

/-- One process's handle on the store; its ring holds its own key. -/
structure ShardedLedger where
  key : SigningKey
  verifiers : List VerifyingKey
  own : P.verifyingKey key ∈ verifiers

def ShardedLedger.new (key : SigningKey) (retired : List VerifyingKey) :
    ShardedLedger P where
  key := key
  verifiers :=
    if retired.any fun other => other == P.verifyingKey key then retired
    else retired ++ [P.verifyingKey key]
  own := by
    split
    case isTrue hany =>
      obtain ⟨other, hother, heq⟩ := List.any_eq_true.mp hany
      rw [beq_iff_eq] at heq
      exact heq ▸ hother
    case isFalse => simp

/-- The name its key signs under. -/
def ShardedLedger.kid {P : Platform} (ledger : ShardedLedger P) : String :=
  keyFingerprint (P.verifyingKey ledger.key)

/-! ## Who may append -/

def mayExtend (spans : List KeySpan) (kid : String)
    (verifiers : List VerifyingKey) (shard : String) :
    Except LedgerError Unit :=
  match spans.getLast? with
  | none => .ok ()
  | some last =>
      if last.kid = "" then
        .error (.keySuperseded kid ("shard " ++ shard ++ "'s last record is " ++
          "signed by no key this process holds; another process may have " ++
          "rotated to one"))
      else if last.kid = kid then .ok ()
      else
        match LineText.rposition (· == kid) (Succession.kids spans) with
        | some mine =>
            -- the last span is another key's, so a span follows this one
            let next := spans.getD (mine + 1) last
            .error (.keySuperseded kid ("key " ++ next.kid ++
              " signed shard " ++ shard ++ " after it, from seq " ++
              toString next.firstSeq))
        | none =>
            if verifiers.any fun key => keyFingerprint key == last.kid then
              .ok ()
            else
              .error (.keySuperseded kid ("shard " ++ shard ++
                " was last signed by key " ++ last.kid ++
                ", which this process does not hold; another process may " ++
                "have rotated to it"))

/-- The spans a cursor carries, when they cover every record it counts. -/
def currentSpans : Option HeadCursor → Option (List KeySpan)
  | none => some []
  | some cursor =>
      (cursor.signers.filter fun signers =>
        signers.through == cursor.nextSeq).map ShardSigners.spans

/-- A shard's key spans read from its records. -/
def spansOf (records : List Value) (verifiers : List VerifyingKey) :
    List KeySpan :=
  records.zipIdx.foldl
    (fun spans record => Succession.extend spans
      ((signerOf P record.1 verifiers).getD "") record.2) []

/-- Verify one shard's stored records. -/
def verifyStoredRecords (records : List StoredRecord)
    (keys : List VerifyingKey) : Except LedgerError VerifyReport :=
  (verifyLines P keys none (records.map fun record =>
    .ok record.recordJson)).map Prod.fst

/-! ## Appending -/

variable {P}

namespace ShardedLedger

/-- Chain and sign an entry onto a shard whose keys took over at `spans`. -/
def sealEntry (ledger : ShardedLedger P) (name : String) (shard : Shard)
    (spans : List KeySpan) (entry : Entry) :
    Except LedgerError (RecordOut × Shard) := do
  mayExtend spans ledger.kid ledger.verifiers name
  let record := sealRecord P ledger.key (entry.withSeq shard.nextSeq)
    shard.lastHash
  let cursor : HeadCursor :=
    { nextSeq := shard.nextSeq + 1
      lastHash := record.hash
      signers := some
        { through := shard.nextSeq + 1
          spans := Succession.extend spans ledger.kid shard.nextSeq } }
  return (record, shard.commit cursor (record.line P))

/-- An entry revised, then sealed: the outcome of the append and the shard it
leaves. -/
def appendUnder (ledger : ShardedLedger P) (name : String) (shard : Shard)
    (spans : List KeySpan) (entry : Entry)
    (revise : Entry → Except LedgerError Entry) :
    Except LedgerError RecordOut × Shard :=
  match revise entry with
  | .error error => (.error error, shard)
  | .ok entry =>
      match ledger.sealEntry name shard spans entry with
      | .error error => (.error error, shard)
      | .ok (record, next) => (.ok record, next)

/-- The section that reads the cursor alone; it decides nothing unless the
cursor's spans are current. -/
def appendAtHead (ledger : ShardedLedger P) (name : String) (shard : Shard)
    (entry : Entry) (revise : Entry → Except LedgerError Entry) :
    Option (Except LedgerError RecordOut × Shard) :=
  (currentSpans shard.cursor).map fun spans =>
    ledger.appendUnder name shard spans entry revise

/-- The section that reads the history: `decide` sees every record and may
append one entry. -/
def criticalSection {α : Type} (ledger : ShardedLedger P) (name : String)
    (shard : Shard)
    (decide : List Value → Except LedgerError (Option Entry × α)) :
    Except LedgerError (Option RecordOut × α) × Shard :=
  match shard.lines.mapM (parseValue P) with
  | none => (.error (.serde (P.serdeMessage .unreadable)), shard)
  | some parsed =>
      match decide parsed with
      | .error error => (.error error, shard)
      | .ok (none, value) => (.ok (none, value), shard)
      | .ok (some entry, value) =>
          match ledger.sealEntry name shard
              (spansOf P parsed ledger.verifiers) entry with
          | .error error => (.error error, shard)
          | .ok (record, next) => (.ok (some record, value), next)

def noRecord (name : String) : LedgerError :=
  .io ("<sharded ledger, shard " ++ name ++ ">")
    "append produced no record (store did not commit)"

/-- An append through the history. -/
def appendThroughHistory (ledger : ShardedLedger P) (name : String)
    (shard : Shard) (entry : Entry)
    (revise : Entry → Except LedgerError Entry) :
    Except LedgerError RecordOut × Shard :=
  match ledger.criticalSection name shard fun _ =>
      (revise entry).map fun entry => (some entry, ()) with
  | (.error error, next) => (.error error, next)
  | (.ok (some record, _), next) => (.ok record, next)
  | (.ok (none, _), next) => (.error (noRecord name), next)

end ShardedLedger

/-! ## Many processes over one store -/

/-- One call of `append_revised`. -/
structure AppendCall (P : Platform) where
  ledger : ShardedLedger P
  shard : String
  entry : Entry
  revise : Entry → Except LedgerError Entry

/-- The shards, and the appends between their two sections. -/
structure ShardWorld (P : Platform) where
  shards : String → Shard
  waiting : List (AppendCall P) := []

namespace ShardWorld

def write (world : ShardWorld P) (name : String) (shard : Shard) :
    ShardWorld P :=
  { world with shards := Function.update world.shards name shard }

end ShardWorld

inductive ShardOperation (P : Platform) where
  | append (call : AppendCall P)
  | readHistory (index : ℕ)
  | stop (index : ℕ)
  | unaware (name line : String) (ring : List VerifyingKey)
      (signers : Option ShardSigners)

/-- A writer that keeps no spans appends a record verification accepts next,
and leaves the cursor's spans absent or behind. -/
def Shard.afterUnaware (P : Platform) (shard : Shard) (line : String)
    (ring : List VerifyingKey) (signers : Option ShardSigners) :
    Option Shard :=
  if ring.isEmpty ∨ signers.any fun signers =>
      decide (shard.nextSeq < signers.through) then none
  else
    match verifyState P ring none (shard.lines.map .ok) with
    | .error _ => none
    | .ok state =>
        match verifyRecord P ring none state line with
        | .error _ => none
        | .ok next =>
            some (shard.commit
              { nextSeq := shard.nextSeq + 1
                lastHash := next.prev
                signers := signers } line)

namespace ShardWorld

/-- One step, and what an append that it ends returns. -/
def step (world : ShardWorld P) :
    ShardOperation P → ShardWorld P × Option (Except LedgerError RecordOut)
  | .append call =>
      match call.ledger.appendAtHead call.shard (world.shards call.shard)
          call.entry call.revise with
      | some (outcome, shard) => (world.write call.shard shard, some outcome)
      | none => ({ world with waiting := world.waiting ++ [call] }, none)
  | .readHistory index =>
      match world.waiting[index]? with
      | none => (world, none)
      | some call =>
          let result := call.ledger.appendThroughHistory call.shard
            (world.shards call.shard) call.entry call.revise
          ({ world.write call.shard result.2 with
              waiting := world.waiting.eraseIdx index }, some result.1)
  | .stop index =>
      ({ world with waiting := world.waiting.eraseIdx index }, none)
  | .unaware name line ring signers =>
      match (world.shards name).afterUnaware P line ring signers with
      | some shard => (world.write name shard, none)
      | none => (world, none)

def next (world : ShardWorld P) (operation : ShardOperation P) :
    ShardWorld P :=
  (world.step operation).1

end ShardWorld

end Decern
