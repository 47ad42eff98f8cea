import Decern.LedgerOpen
import Decern.StateRun
import Mathlib.Tactic

/-!
# Writing a ledger

An append seals one entry onto the head and writes its line in one step; a
write that fails after bytes may have reached the file stops the handle.
-/

namespace Decern

open ByteText (Bytes newline)
open LineText (cut joined terminatedPrefix)

variable (P : Platform)

/-! ## The handle -/

/-- How a record's write fails: after some of its bytes, or only at its
sync. -/
inductive WriteFault where
  | torn (written : ℕ) (err : String)
  | unsynced (err : String)

/-- A record's line as it is written. -/
def recordLine (record : RecordOut) : Bytes :=
  ByteText.encode (record.line P)

theorem newline_notMem_recordLine (record : RecordOut) :
    newline ∉ recordLine P record :=
  newline_notMem_line P record

theorem decodeLine_recordLine (path : String) (record : RecordOut) :
    decodeLine path (recordLine P record) = .ok (record.line P) := by
  apply decodeLine_encode
  obtain ⟨inside, hline⟩ := encode_line_braces P record
  rw [hline, ← List.cons_append, List.getLast?_append]
  simp [ByteText.carriageReturn]

def Ledger.failedErr (path : String) : LedgerError :=
  .io path ("an earlier write to this ledger failed after it may have " ++
    "reached disk; reopen it before appending")

/-- The handle, the file and whether one line's write went through. -/
def Ledger.writeLine (ledger : Ledger) (path : String) (file line : Bytes)
    (fault : Option WriteFault) :
    Ledger × Bytes × Except LedgerError Unit :=
  match fault with
  | none => (ledger, file ++ line, .ok ())
  | some (.torn written err) =>
      ({ ledger with failed := true }, file ++ line.take written,
        .error (.io path err))
  | some (.unsynced err) =>
      if ledger.sync then
        ({ ledger with failed := true }, file ++ line, .error (.io path err))
      else (ledger, file ++ line, .ok ())

/-- The record an append writes next. -/
def Ledger.sealNext (ledger : Ledger) (entry : Entry) : RecordOut :=
  sealRecord P ledger.key (entry.withSeq ledger.nextSeq) ledger.lastHash

/-- The handle after its next record is written. -/
def Ledger.advance (ledger : Ledger) (entry : Entry) : Ledger :=
  { ledger with
    lastHash := (ledger.sealNext P entry).hash
    nextSeq := ledger.nextSeq + 1
    signers := Succession.extend ledger.signers
      (keyFingerprint (P.verifyingKey ledger.key)) ledger.nextSeq }

def Ledger.append (ledger : Ledger) (path : String) (file : Bytes)
    (entry : Entry) (fault : Option WriteFault) :
    Ledger × Bytes × Except LedgerError RecordOut :=
  if ledger.failed then (ledger, file, .error (Ledger.failedErr path))
  else
    let record := ledger.sealNext P entry
    match ledger.writeLine path file (recordLine P record ++ [newline])
        fault with
    | (ledger, file, .error error) => (ledger, file, .error error)
    | (ledger, file, .ok ()) => (ledger.advance P entry, file, .ok record)

/-- The loop of `append_all`: every entry until the first error. -/
def Ledger.appendEach (path : String) (ledger : Ledger) (file : Bytes)
    (records : List RecordOut) :
    List (Entry × Option WriteFault) →
      Ledger × Bytes × List RecordOut × Except LedgerError Unit
  | [] => (ledger, file, records, .ok ())
  | (entry, fault) :: rest =>
      match ledger.append P path file entry fault with
      | (ledger, file, .error error) => (ledger, file, records, .error error)
      | (ledger, file, .ok record) =>
          Ledger.appendEach path ledger file (records ++ [record]) rest

/-- Several entries, synced once at the end when sync is on. -/
def Ledger.appendAll (ledger : Ledger) (path : String) (file : Bytes)
    (entries : List (Entry × Option WriteFault))
    (syncFault : Option String) :
    Ledger × Bytes × List RecordOut × Except LedgerError Unit :=
  match Ledger.appendEach P path { ledger with sync := false } file []
      entries with
  | (last, file, records, outcome) =>
      let last := { last with sync := ledger.sync }
      if ledger.sync then
        match syncFault with
        | some err =>
            ({ last with failed := true }, file, records,
              .error (.io path err))
        | none => (last, file, records, outcome)
      else (last, file, records, outcome)

def Ledger.rotate (ledger : Ledger) (newKey : SigningKey) :
    Ledger × Except LedgerError Unit :=
  let kid := keyFingerprint (P.verifyingKey newKey)
  match Succession.successor ledger.signers kid with
  | some next =>
      (ledger, .error (.keySuperseded kid ("key " ++ next.kid ++
        " signed after it, from seq " ++ toString next.firstSeq)))
  | none =>
      ({ ledger with
         verifiers := keyring P newKey ledger.verifiers
         key := newKey }, .ok ())

/-! ## One path and its writer -/

/-- An open handle, and the lines its head counts. -/
structure Session where
  ledger : Ledger
  lines : List Bytes

/-- A ledger path: its file, when there is one, and the one open handle. -/
structure World where
  file : Option Bytes
  session : Option Session

inductive Operation where
  | «open» (key : SigningKey) (retired : List VerifyingKey)
      (anchor : Option (Option Bytes)) (fault : Option OpenFault)
  | append (entry : Entry) (fault : Option WriteFault)
  | appendAll (entries : List (Entry × Option WriteFault))
      (syncFault : Option String)
  | rotate (newKey : SigningKey)
  | setSync (sync : Bool)
  | close

/-- Every entry an operation appends is within the parser's limit. -/
def Operation.WithinLimit : Operation → Prop
  | .append entry _ => entry.WithinLimit
  | .appendAll entries _ => ∀ entry ∈ entries, entry.1.WithinLimit
  | _ => True

/-- A session and the file after it appended some records. -/
def Session.appended (session : Session) (ledger : Ledger) (file : Bytes)
    (records : List RecordOut) : World where
  file := some file
  session := some
    { ledger := ledger
      lines := session.lines ++ records.map (recordLine P) }

/-- One operation, whatever it returns. -/
def World.step (target : Target) (path : String) (world : World)
    (operation : Operation) : World :=
  match world.session, operation with
  | none, .open key retired anchor fault =>
      match openSingleInner P target fault path world.file key retired
          anchor with
      | (file, .error _) => { file := file, session := none }
      | (file, .ok ledger) =>
          { file := file
            session := some
              { ledger := ledger, lines := (cut newline (file.getD [])).1 } }
  | none, _ => world
  -- The handle holds the writer's lock.
  | some _, .open .. => world
  | some session, .append entry fault =>
      match session.ledger.append P path (world.file.getD []) entry fault with
      | (ledger, file, .ok record) =>
          session.appended P ledger file [record]
      | (ledger, file, .error _) => session.appended P ledger file []
  | some session, .appendAll entries syncFault =>
      match session.ledger.appendAll P path (world.file.getD []) entries
          syncFault with
      | (ledger, file, records, _) => session.appended P ledger file records
  | some session, .rotate newKey =>
      { world with
        session := some
          { session with ledger := (session.ledger.rotate P newKey).1 } }
  | some session, .setSync sync =>
      { world with
        session := some
          { session with ledger := { session.ledger with sync := sync } } }
  | some _, .close => { world with session := none }

/-- A path after some operations, from any file. -/
def World.after (target : Target) (path : String) (file : Option Bytes)
    (operations : List Operation) : World :=
  StateRun.run (World.step P target path) { file := file, session := none }
    operations

end Decern
