import Decern.LedgerVerify
import Mathlib.Tactic

/-!
# Anchors

A checkpoint commits to the head after some number of records.  A ledger
extends it when the head over its own first records, derived again from the
stored lines, is the one committed to.  Over lines the verifier accepted this
second reading cannot fail, and it finds the hash of the counted record.
-/

namespace Decern

open ByteText (Bytes)
open JsonText (Doc)
open Serde (SerdeError docSource)

variable (P : Platform)

/-- A signed commitment to the head after `count` records. -/
structure Checkpoint where
  root : String
  count : UInt64
  tsMs : UInt64
  pubkeyHex : String
  sigB64 : String
  deriving DecidableEq, Repr

def readCheckpointDoc (doc : Doc) : Except SerdeError Checkpoint := do
  let source := docSource P.floats
  let shape := source.shape doc
  Serde.expectStruct 5 shape
  let root ← Serde.required shape 0 "root" (Serde.readString source)
  let count ← Serde.required shape 1 "count" (Serde.readU64 source)
  let tsMs ← Serde.required shape 2 "ts_ms" (Serde.readU64 source)
  let pubkeyHex ← Serde.required shape 3 "pubkey_hex"
    (Serde.readString source)
  let sigB64 ← Serde.required shape 4 "sig_b64" (Serde.readString source)
  return { root, count, tsMs, pubkeyHex, sigB64 }

def readCheckpoint (text : String) : Except SerdeError Checkpoint :=
  match JsonText.parse text.toList with
  | none => .error .unreadable
  | some doc => readCheckpointDoc P doc

def commitmentBytes (tag hexField : String) (a b : UInt64) : Bytes :=
  ByteText.encode (tag ++ "\x1f" ++ hexField ++ "\x1f" ++ toString a.toNat ++
    "\x1f" ++ toString b.toNat)

def checkpointBytes (root : String) (count tsMs : UInt64) : Bytes :=
  commitmentBytes "decern-ledger-checkpoint" root count tsMs

def verifyCheckpointSig (cp : Checkpoint) (pubkey : VerifyingKey) : Bool :=
  match (P.decodeBase64 cp.sigB64).bind toSignature with
  | none => false
  | some sig =>
      P.verifyStrict pubkey (checkpointBytes cp.root cp.count cp.tsMs) sig

/-- The anchor a file holds, when there is a file. -/
def loadAnchor (anchor : Option Bytes) :
    Except LedgerError (Option Checkpoint) :=
  match anchor with
  | none => .ok none
  | some bytes =>
      match ByteText.decode bytes with
      | none => .error (.serde (P.serdeMessage .unreadable))
      | some text =>
          match readCheckpoint P text with
          | .ok cp => .ok (some cp)
          | .error error => .error (.serde (P.serdeMessage error))

/-! ## The head after some records -/

/-- The loop of `root_at_count`, from a head after `seen` records. -/
def rootFrom (count : ℕ) (prev : String) (seen : ℕ) :
    List (Except LedgerError String) → Except LedgerError (Option String)
  | [] => .ok none
  | .error error :: _ => .error error
  | .ok line :: rest =>
      if RustText.isBlank line then rootFrom count prev seen rest
      else
        match readRecord P line with
        | .error error =>
            .error (.tamper seen
              ("unparseable record: " ++ P.serdeMessage error))
        | .ok record =>
            if record.prev ≠ prev then
              .error (.tamper seen "broken chain link (prev mismatch)")
            else if HexText.encode (chainHash P
                (ByteText.encode record.entry) record.prev) ≠
                record.hash then
              .error (.tamper seen "entry altered (hash mismatch)")
            else if seen + 1 = count then .ok (some record.hash)
            else rootFrom count record.hash (seen + 1) rest

def rootAtCount (files : List LedgerFile) (count : ℕ) :
    Except LedgerError (Option String) :=
  if count = 0 then .ok (some genesis)
  else rootFrom P count genesis 0 (prefixLines files).1

def ledgerExtendsCheckpointAt (files : List LedgerFile) (cp : Checkpoint) :
    Except LedgerError Bool :=
  (rootAtCount P files cp.count.toNat).map fun root =>
    decide (root = some cp.root)

/-! ## What the second reading finds -/

/-- The records among lines. -/
def recordsOf (lines : List (Except LedgerError String)) : List RecordIn :=
  lines.filterMap fun line =>
    match line with
    | .error _ => none
    | .ok text =>
        if RustText.isBlank text then none
        else (readRecord P text).toOption

/-- The head after the first `count` records of some lines. -/
def headAfter (lines : List (Except LedgerError String)) (count : ℕ) :
    Option String :=
  (genesis :: (recordsOf P lines).map RecordIn.hash)[count]?

/-- Accepted lines are read again without an error. -/
theorem rootFrom_of_verifyFrom {keys : List VerifyingKey}
    {window : Option ReadWindow} (state : VerifyState) {final : VerifyState}
    {lines : List (Except LedgerError String)} {count : ℕ}
    (hcount : state.count < count)
    (hok : verifyFrom P keys window state lines = .ok final) :
    rootFrom P count state.prev state.count lines =
      .ok (((recordsOf P lines).map RecordIn.hash)[count - state.count - 1]?) := by
  induction lines generalizing state with
  | nil => simp [rootFrom, recordsOf]
  | cons line rest ih =>
      rw [verifyFrom_cons] at hok
      cases hline : verifyLine P keys window state line with
      | error error =>
          rw [hline] at hok
          cases hok
      | ok next =>
          rw [hline] at hok
          cases line with
          | error error => cases hline
          | ok text =>
              unfold verifyLine at hline
              simp only at hline
              rw [rootFrom]
              split
              case isTrue hblank =>
                rw [if_pos hblank] at hline
                cases hline
                have hnext := ih { state with index := state.index + 1 }
                  hcount hok
                simp only at hnext
                rw [hnext]
                simp [recordsOf, hblank]
              case isFalse hblank =>
                rw [if_neg hblank] at hline
                obtain ⟨record, signers, records, haccepted, _, rfl⟩ :=
                  (verifyRecord_eq_ok_iff P _ _ _ _ _).mp hline
                have hrecords : recordsOf P (.ok text :: rest) =
                    record :: recordsOf P rest := by
                  simp [recordsOf, hblank, haccepted.read, Except.toOption]
                simp only [haccepted.read, haccepted.prev, ne_eq,
                  not_true_eq_false, if_false, hrecords, List.map_cons]
                rw [← haccepted.prev, haccepted.hash]
                simp only [not_true_eq_false, if_false]
                split
                case isTrue hlast =>
                  have hindex : count - state.count - 1 = 0 := by omega
                  rw [hindex]
                  rfl
                case isFalse hmore =>
                  have hnext := ih (state.after record signers records)
                    (by simp only [VerifyState.after]; omega) hok
                  simp only [VerifyState.after] at hnext
                  have hindex : count - state.count - 1 =
                      (count - (state.count + 1) - 1) + 1 := by omega
                  rw [hnext, hindex, List.getElem?_cons_succ]

/-- Over a prefix that verifies, the second reading finds the head after the
counted record. -/
theorem rootAtCount_eq {keys : List VerifyingKey}
    {window : Option ReadWindow} {files : List LedgerFile}
    {final : VerifyState} (count : ℕ)
    (hok : verifyState P keys window (prefixLines files).1 = .ok final) :
    rootAtCount P files count =
      .ok (headAfter P (prefixLines files).1 count) := by
  unfold rootAtCount headAfter
  split
  case isTrue hzero => simp [hzero]
  case isFalse hne =>
    obtain ⟨before, hbefore⟩ := Nat.exists_eq_succ_of_ne_zero hne
    have hfrom := rootFrom_of_verifyFrom P {} (Nat.pos_of_ne_zero hne) hok
    rw [hbefore] at hfrom ⊢
    simpa using hfrom

/-- A ledger whose prefix verifies extends a checkpoint exactly when the
checkpoint's root is the head after its count of records. -/
theorem ledgerExtendsCheckpointAt_eq {keys : List VerifyingKey}
    {window : Option ReadWindow} {files : List LedgerFile}
    {final : VerifyState} (cp : Checkpoint)
    (hok : verifyState P keys window (prefixLines files).1 = .ok final) :
    ledgerExtendsCheckpointAt P files cp =
      .ok (decide (headAfter P (prefixLines files).1 cp.count.toNat =
        some cp.root)) := by
  rw [ledgerExtendsCheckpointAt, rootAtCount_eq P _ hok]
  rfl

end Decern
