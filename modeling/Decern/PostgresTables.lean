import Decern.HeadStore
import Mathlib.Tactic

/-!
# The tables of the database head store

A shard in the database is its head row and its records, each under the shard
and its number.  A section reads them under the shard's advisory lock and
writes one record and the head that counts it in one transaction.
-/

namespace Decern.Postgres

/-! ## Numbers as the columns hold them -/

def dbError (message : String) : StoreError := .io "postgres" message

def toI64 (v : ℕ) : Except StoreError ℤ :=
  if v < 9223372036854775808 then .ok v
  else .error (.invalid ("sequence " ++ toString v ++ " exceeds i64 range"))

def fromI64 (v : ℤ) : Except StoreError ℕ :=
  if 0 ≤ v then .ok v.toNat
  else .error (.invalid ("stored sequence " ++ toString v ++ " is negative"))

/-- The advisory lock of a shard: FNV-1a over its bytes, as a signed word. -/
def advisoryKey (shard : String) : ℤ :=
  let h := (ByteText.encode shard).foldl (fun (h : UInt64) b =>
    (h ^^^ b.toUInt64) * 0x00000100000001b3) 0xcbf29ce484222325
  h.toInt64.toInt

/-! ## Rows -/

structure RecordRow where
  seq : ℤ
  record : String
  deriving DecidableEq, Repr

structure HeadRow where
  nextSeq : ℤ
  lastHash : String
  signers : Option String
  deriving DecidableEq, Repr

/-- The two tables; a shard's records are in the order of their numbers. -/
structure Tables where
  heads : Std.ExtTreeMap String HeadRow
  records : String → List RecordRow

/-- How a cursor's key spans are written as JSON and read back. -/
structure SignersText where
  write : ShardSigners → Except String String
  read : String → Except String ShardSigners

/-- What a section is handed: the cursor, and the records if it reads them. -/
abbrev ShardState := Option HeadCursor × List StoredRecord

namespace Tables

variable (text : SignersText)

def cursorOf (row : HeadRow) : Except StoreError HeadCursor := do
  let signers ← match row.signers with
    | none => pure none
    | some json => ((text.read json).mapError StoreError.serde).map some
  return ⟨← fromI64 row.nextSeq, row.lastHash, signers⟩

def readHead (tables : Tables) (shard : String) :
    Except StoreError (Option HeadCursor) :=
  match tables.heads[shard]? with
  | none => .ok none
  | some row => (cursorOf text row).map some

def recordOf (row : RecordRow) : Except StoreError StoredRecord := do
  return ⟨← fromI64 row.seq, row.record⟩

def readRecords (tables : Tables) (shard : String) :
    Except StoreError (List StoredRecord) :=
  (tables.records shard).mapM recordOf

/-- The head, and the records when the section reads the history. -/
def load (tables : Tables) (shard : String) (history : Bool) :
    Except StoreError ShardState := do
  let cursor ← tables.readHead text shard
  if history then
    let records ← tables.readRecords shard
    return (cursor, records)
  else return (cursor, [])

/-- The shards with a head row, in byte order. -/
def listShards (tables : Tables) : List String := tables.heads.keys

/-! ## Writing -/

def headRow (cursor : HeadCursor) : Except StoreError HeadRow := do
  let signers ← match cursor.signers with
    | none => pure none
    | some signers =>
        ((text.write signers).mapError StoreError.serde).map some
  return ⟨← toI64 cursor.nextSeq, cursor.lastHash, signers⟩

/-- The row of the record a cursor counts last. -/
def recordRow (cursor : HeadCursor) (record : String) :
    Except StoreError RecordRow := do
  return ⟨← toI64 (cursor.nextSeq - 1), record⟩

def hasRecord (tables : Tables) (shard : String) (seq : ℤ) : Bool :=
  (tables.records shard).any fun row => row.seq == seq

def insertRecord (tables : Tables) (shard : String) (row : RecordRow) :
    Tables where
  heads := tables.heads
  records := Function.update tables.records shard
    ((tables.records shard).orderedInsert (fun a b => a.seq ≤ b.seq) row)

def upsertHead (tables : Tables) (shard : String) (row : HeadRow) :
    Tables where
  heads := tables.heads.insert shard row
  records := tables.records

/-! ## What a write leaves alone -/

/-- The tables hold the same of a shard. -/
def SameShard (shard : String) (tables others : Tables) : Prop :=
  others.heads[shard]? = tables.heads[shard]? ∧
    others.records shard = tables.records shard

variable {text}

theorem SameShard.refl (shard : String) (tables : Tables) :
    SameShard shard tables tables :=
  ⟨rfl, rfl⟩

theorem SameShard.trans {shard : String} {first second third : Tables}
    (hfirst : SameShard shard first second)
    (hsecond : SameShard shard second third) : SameShard shard first third :=
  ⟨hsecond.1.trans hfirst.1, hsecond.2.trans hfirst.2⟩

theorem SameShard.readHead {shard : String} {tables others : Tables}
    (hsame : SameShard shard tables others) :
    others.readHead text shard = tables.readHead text shard := by
  simp only [Tables.readHead, hsame.1]

theorem SameShard.load {shard : String} {tables others : Tables}
    (hsame : SameShard shard tables others) (history : Bool) :
    others.load text shard history = tables.load text shard history := by
  simp only [Tables.load, hsame.readHead, readRecords, hsame.2]

theorem load_head {tables : Tables} {shard : String}
    {cursor : Option HeadCursor}
    (hread : tables.readHead text shard = .ok cursor) :
    tables.load text shard false = .ok (cursor, []) := by
  rw [load, hread]
  rfl

theorem load_history {tables : Tables} {shard : String}
    {cursor : Option HeadCursor} {records : List StoredRecord}
    (hhead : tables.readHead text shard = .ok cursor)
    (hrecords : tables.readRecords shard = .ok records) :
    tables.load text shard true = .ok (cursor, records) := by
  unfold load
  rw [hhead, hrecords]
  rfl

theorem SameShard.hasRecord {shard : String} {tables others : Tables}
    (hsame : SameShard shard tables others) (seq : ℤ) :
    others.hasRecord shard seq = tables.hasRecord shard seq := by
  simp only [Tables.hasRecord, hsame.2]

theorem sameShard_insertRecord {shard other : String} (tables : Tables)
    (row : RecordRow) (hne : shard ≠ other) :
    SameShard shard tables (tables.insertRecord other row) := by
  constructor
  · rfl
  · exact Function.update_of_ne hne _ _

theorem sameShard_upsertHead {shard other : String} (tables : Tables)
    (row : HeadRow) (hne : shard ≠ other) :
    SameShard shard tables (tables.upsertHead other row) := by
  constructor
  · simp [upsertHead, Std.ExtTreeMap.getElem?_insert, Ne.symm hne]
  · rfl

end Tables

end Decern.Postgres
