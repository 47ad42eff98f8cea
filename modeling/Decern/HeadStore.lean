import Decern.LineText
import Decern.ShardedLedger
import Mathlib.Tactic

/-!
# The file head store

A shard on disk is its log, a head that commits a length of the log, and a
third file that holds a marker or the whole shard in an earlier layout.  A
section reads them afresh and commits at most one record, by steps a stop can
come between.
-/

namespace Decern

open ByteText (Bytes newline)

inductive StoreError where
  | io (path err : String)
  | serde (message : String)
  | invalid (message : String)
  deriving DecidableEq, Repr

/-! ## The files of a shard -/

/-- A shard as the earlier layout stored it. -/
structure LegacyShard where
  cursor : Option HeadCursor
  records : List StoredRecord
  deriving DecidableEq, Repr

structure FileHead where
  cursor : Option HeadCursor
  logLen : ℕ
  deriving DecidableEq, Repr

/-- The head of a shard created and not yet appended to. -/
def FileHead.empty : FileHead := ⟨none, 0⟩

/-- A JSON file: absent, holding a value, or holding something else. -/
inductive Stored (α : Type) where
  | absent
  | holds (value : α)
  | unreadable (message : String)
  deriving DecidableEq, Repr

/-- What a `.shard` path holds, when it holds one of the two. -/
inductive ShardFile where
  | moved
  | legacy (shard : LegacyShard)
  deriving DecidableEq, Repr

structure ShardDisk where
  shardFile : Stored ShardFile := .absent
  head : Stored FileHead := .absent
  log : Option Bytes := none
  deriving DecidableEq, Repr

/-- The paths of a shard's files, and the wording of a decoding error. -/
structure ShardFiles where
  shardFile : String
  head : String
  log : String
  utf8Error : Bytes → String

def shardToHex (shard : String) : String :=
  HexText.encode (ByteText.encode shard)

def filesOf (root shard : String) (utf8Error : Bytes → String) :
    Except StoreError ShardFiles :=
  if shard = "" then .error (.invalid "ledger shard id must not be empty")
  else .ok
    { shardFile := root ++ "/" ++ shardToHex shard ++ ".shard"
      head := root ++ "/" ++ shardToHex shard ++ ".head"
      log := root ++ "/" ++ shardToHex shard ++ ".log"
      utf8Error := utf8Error }

/-! ## Reading -/

inductive Beside where
  | missing
  | marker
  | earlier (shard : LegacyShard)
  deriving DecidableEq, Repr

/-- An earlier-layout shard that still is the shard's history. -/
def Beside.converts : Beside → Bool
  | .earlier old => old.cursor.isSome
  | _ => false

variable (files : ShardFiles)

def readBeside : Stored ShardFile → Except StoreError Beside
  | .absent => .ok .missing
  | .holds .moved => .ok .marker
  | .unreadable message =>
      .error (.serde ("shard file " ++ files.shardFile ++ ": " ++ message))
  | .holds (.legacy old) =>
      if old.cursor = none ∧ old.records ≠ [] then
        .error (.invalid ("shard file " ++ files.shardFile ++ " holds " ++
          toString old.records.length ++ " records and no cursor"))
      else .ok (.earlier old)

def readHead : Stored FileHead → Except StoreError (Option FileHead)
  | .absent => .ok none
  | .holds head => .ok (some head)
  | .unreadable message =>
      .error (.serde ("shard head " ++ files.head ++ ": " ++ message))

def shortLog (len committed : ℕ) : StoreError :=
  .invalid ("shard log " ++ files.log ++ " holds " ++ toString len ++
    " bytes, fewer than the " ++ toString committed ++ " committed")

/-- `text.split_terminator('\n')`. -/
def splitTerminator (text : String) : List String :=
  let pieces := LineText.cut '\n' text.toList
  (pieces.1 ++ if pieces.2 = [] then [] else [pieces.2]).map String.ofList

/-- Lines as records, each at its position. -/
def numbered (lines : List String) : List StoredRecord :=
  lines.zipIdx.map fun line => ⟨line.2, line.1⟩

/-- How many records a cursor counts. -/
def countOf (cursor : Option HeadCursor) : ℕ :=
  (cursor.map HeadCursor.nextSeq).getD 0

/-- The committed records of a log. -/
def readLog (log : Option Bytes) (head : FileHead) :
    Except StoreError (List StoredRecord) :=
  let bytes := log.getD []
  if bytes.length < head.logLen then
    .error (shortLog files bytes.length head.logLen)
  else
    match ByteText.decode (bytes.take head.logLen) with
    | none => .error (.invalid ("shard log " ++ files.log ++ ": " ++
        files.utf8Error (bytes.take head.logLen)))
    | some text =>
        let records := numbered (splitTerminator text)
        if (0 < head.logLen ∧ text.toList.getLast? ≠ some '\n') ∨
            records.length ≠ countOf head.cursor then
          .error (.invalid ("shard log " ++ files.log ++ " holds " ++
            toString records.length ++ " committed records where its head " ++
            "names " ++ toString (countOf head.cursor)))
        else .ok records

/-- A log with records needs a head, or an earlier-layout shard it was being
converted from. -/
def refuseOrphanLog (log : Option Bytes) (beside : Beside) :
    Except StoreError Unit :=
  if beside.converts then .ok ()
  else if 0 < (log.getD []).length then
    .error (.invalid ("shard log " ++ files.log ++
      " holds records and has no head beside it"))
  else .ok ()

/-- The records of the earlier layout are the log's first. -/
def refuseUnlessPrefix (log : Option Bytes) (head : FileHead)
    (old : LegacyShard) : Except StoreError Unit := do
  let records ← readLog files log head
  if old.records.length ≤ records.length ∧
      (old.records.zip records).all fun pair =>
        pair.1.recordJson == pair.2.recordJson then
    .ok ()
  else
    .error (.invalid ("shard file " ++ files.shardFile ++ " holds records " ++
      "its log does not: an earlier release wrote to the shard after this " ++
      "one had converted it"))

structure Loaded where
  head : Option FileHead
  beside : Beside
  records : List StoredRecord

def Loaded.cursor (loaded : Loaded) : Option HeadCursor :=
  match loaded.head, loaded.beside with
  | some head, _ => head.cursor
  | none, .earlier old => old.cursor
  | none, _ => none

/-- The shard's cursor and, for a history read, its records. -/
def load (disk : ShardDisk) (history : Bool) : Except StoreError Loaded := do
  let beside ← readBeside files disk.shardFile
  let head ← readHead files disk.head
  match head with
  | some found =>
      match beside with
      | .earlier old => refuseUnlessPrefix files disk.log found old
      | _ => .ok ()
      let records ← if history then readLog files disk.log found else .ok []
      return { head, beside, records }
  | none =>
      refuseOrphanLog files disk.log beside
      let records := match beside with
        | .earlier old => if history then old.records else []
        | _ => []
      return { head, beside, records }

/-! ## Committing -/

/-- One step of a commit: a file replaced, or the log created, cut, or one
byte longer. -/
inductive DiskStep where
  | mark
  | writeHead (head : FileHead)
  | createLog
  | truncateLog (len : ℕ)
  | writeLog (byte : UInt8)
  | syncLog
  deriving DecidableEq, Repr

def ShardDisk.take (disk : ShardDisk) : DiskStep → ShardDisk
  | .mark => { disk with shardFile := .holds .moved }
  | .writeHead head => { disk with head := .holds head }
  | .createLog => { disk with log := some (disk.log.getD []) }
  | .truncateLog len => { disk with log := disk.log.map (List.take len) }
  | .writeLog byte => { disk with log := disk.log.map (· ++ [byte]) }
  | .syncLog => disk

def lineSteps (line : String) : List DiskStep :=
  (ByteText.encode line ++ [newline]).map .writeLog

/-- The lines written past the committed length, and the length they reach. -/
def writeLines (written : ℕ) :
    List String → List DiskStep × Except StoreError ℕ
  | [] => ([.syncLog], .ok written)
  | line :: rest =>
      if '\n' ∈ line.toList then
        ([], .error (.invalid "a ledger record must be one line"))
      else
        let others := writeLines
          (written + (ByteText.encode line).length + 1) rest
        (lineSteps line ++ others.1, others.2)

def appendLog (log : Option Bytes) (committed : ℕ) (lines : List String) :
    List DiskStep × Except StoreError ℕ :=
  let bytes := log.getD []
  if bytes.length < committed then
    ([.createLog], .error (shortLog files bytes.length committed))
  else if 0 < committed ∧ bytes[committed - 1]? ≠ some newline then
    ([.createLog], .error (.invalid ("shard log " ++ files.log ++ " does " ++
      "not end a record at its committed length " ++ toString committed ++
      "; it was edited after it committed")))
  else
    let cutting := if bytes.length > committed then
      [DiskStep.truncateLog committed] else []
    let writing := writeLines committed lines
    (.createLog :: (cutting ++ writing.1), writing.2)

/-- The marker, unless the path holds it. -/
def markSteps : Beside → List DiskStep
  | .marker => []
  | _ => [.mark]

/-- The steps of a commit, and its outcome when it takes all of them. -/
def commitSteps (log : Option Bytes) (loaded : Loaded) (cursor : HeadCursor)
    (record : String) : List DiskStep × Except StoreError Unit :=
  let finish (before : List DiskStep) (committed : ℕ) (lines : List String)
      (after : List DiskStep) : List DiskStep × Except StoreError Unit :=
    let appended := appendLog files log committed lines
    match appended.2 with
    | .error error => (before ++ appended.1, .error error)
    | .ok logLen => (before ++ appended.1 ++
        .writeHead ⟨some cursor, logLen⟩ :: after, .ok ())
  match loaded.head with
  | some head =>
      finish (markSteps loaded.beside) head.logLen [record] []
  | none =>
      match loaded.beside with
      | .earlier old =>
          if old.cursor.isSome then
            finish [] 0 (old.records.map StoredRecord.recordJson ++ [record])
              [.mark]
          else finish [.mark, .writeHead .empty] 0 [record] []
      | beside =>
          finish (markSteps beside ++ [.writeHead .empty]) 0 [record] []

/-! ## Sections -/

/-- What a section's callback decides to write. -/
abbrev ShardWrite := Except StoreError (Option (HeadCursor × String))

inductive Section where
  | withShard (decide : Option HeadCursor → List StoredRecord → ShardWrite)
  | withShardHead (decide : Option HeadCursor → ShardWrite)

def Section.history : Section → Bool
  | .withShard _ => true
  | .withShardHead _ => false

def Section.decide (part : Section) (cursor : Option HeadCursor)
    (records : List StoredRecord) : ShardWrite :=
  match part with
  | .withShard decide => decide cursor records
  | .withShardHead decide => decide cursor

/-- The cursor a section shows, the records if it reads them, and whether it
succeeded. -/
structure Seen where
  cursor : Option HeadCursor
  records : List StoredRecord
  outcome : Except StoreError Unit

/-- A section on disk: what it would do, step by step, and what it shows. -/
def ShardDisk.plan (disk : ShardDisk) (part : Section) :
    List DiskStep × Except StoreError Seen :=
  match load files disk part.history with
  | .error error => ([], .error error)
  | .ok loaded =>
      match part.decide loaded.cursor loaded.records with
      | .error error =>
          ([], .ok ⟨loaded.cursor, loaded.records, .error error⟩)
      | .ok none => ([], .ok ⟨loaded.cursor, loaded.records, .ok ()⟩)
      | .ok (some (cursor, record)) =>
          let committed := commitSteps files disk.log loaded cursor record
          (committed.1,
            .ok ⟨loaded.cursor, loaded.records, committed.2⟩)

def ShardDisk.run (disk : ShardDisk) (steps : List DiskStep) : ShardDisk :=
  steps.foldl ShardDisk.take disk

/-- A section that runs to its end. -/
def ShardDisk.perform (disk : ShardDisk) (part : Section) :
    ShardDisk × Except StoreError Seen :=
  let planned := disk.plan files part
  (disk.run planned.1, planned.2)

/-- The history a reader sees. -/
def ShardDisk.read (disk : ShardDisk) : Except StoreError Shard :=
  (load files disk true).map fun loaded =>
    { cursor := loaded.cursor, records := loaded.records }

/-- A section on a shard held in memory. -/
def Shard.perform (shard : Shard) (part : Section) :
    Shard × Except StoreError Seen :=
  let records := if part.history then shard.records else []
  match part.decide shard.cursor records with
  | .error error => (shard, .ok ⟨shard.cursor, records, .error error⟩)
  | .ok none => (shard, .ok ⟨shard.cursor, records, .ok ()⟩)
  | .ok (some (cursor, record)) =>
      (shard.commit cursor record, .ok ⟨shard.cursor, records, .ok ()⟩)

end Decern
