import Decern.RecordReaders
import Mathlib.Tactic

/-!
# The audit surface

A party asks which decisions were recorded about it.  The answer is cut from
the lines of a prefix, each record with its proof, under a head signed over
the same lines.
-/

namespace Decern

open ByteText (Bytes)
open Serde (SerdeError Source Value docSource)
open JsonText (Doc)

variable (P : Platform)

namespace Audit

/-! ## Probing a line -/

section Probe

variable {δ : Type} (source : Source δ)

/-- `ProbeSubject`. -/
def readProbeSubject (tree : δ) : Except SerdeError (Option String) := do
  let shape := source.shape tree
  Serde.expectStruct 1 shape
  Serde.defaulted shape 0 "handle" none
    (Serde.readOption source (Serde.readString source))

/-- `ProbeEntry`. -/
def readProbeEntry (tree : δ) :
    Except SerdeError (Option (Option String)) := do
  let shape := source.shape tree
  Serde.expectStruct 1 shape
  Serde.defaulted shape 0 "decision_subject" none
    (Serde.readOption source (readProbeSubject source))

end Probe

/-- `Probe`: the handle of a line's decision subject, if it has one. -/
def recordedHandle (line : String) : Option String :=
  match JsonText.readOutline line.toList with
  | none => none
  | some outline =>
      let shape := Serde.outlineShape P.floats outline
      let entry : Except SerdeError (Option (Option String)) := do
        Serde.expectStruct 1 shape
        Serde.defaulted shape 0 "entry" none fun child =>
          readProbeEntry (docSource P.floats) child.doc
      entry.toOption.join.join

/-! ## Projecting -/

/-- `MAX_PROJECTED_DECISIONS`. -/
def maxProjectedDecisions : ℕ := 256

/-- The loop over the lines: the records under the handle with their numbers,
and whether one was left out. -/
def matchLines (handle : String) :
    ℕ → List (ℕ × Value) → List String →
      Except LedgerError (List (ℕ × Value) × Bool)
  | _, matched, [] => .ok (matched, false)
  | seq, matched, line :: rest =>
      if recordedHandle P line ≠ some handle then
        matchLines handle (seq + 1) matched rest
      else if maxProjectedDecisions ≤ matched.length then .ok (matched, true)
      else
        match parseValue P line with
        | none => .error (.serde (P.serdeMessage .unreadable))
        | some record =>
            matchLines handle (seq + 1) (matched ++ [(seq, record)]) rest

/-- Why a head could not be produced. -/
inductive HeadError where
  | ledger (error : LedgerError)
  | clock

/-- The time a head is signed at, in milliseconds. -/
def signingTime (clock : Option UInt64) : Except HeadError UInt64 :=
  match clock with
  | none => .error .clock
  | some secs => .ok (UInt64.ofNat (min (secs.toNat * 1000) (2 ^ 64 - 1)))

structure Projection where
  handle : String
  head : TreeHead
  matched : List (ℕ × Value)
  proofs : List InclusionProof
  truncated : Bool

/-- A projection of a prefix's lines, its head signed under the key the handle
has when it is locked again. -/
def project (lines : Except LedgerError (List String)) (handle : String)
    (clock : Option UInt64) (key : SigningKey) :
    Except HeadError Projection := do
  let lines ← lines.mapError .ledger
  let leaves ← (leavesFromLines P lines).mapError .ledger
  let (matched, truncated) ←
    (matchLines P handle 0 [] lines).mapError .ledger
  let proofs ←
    (inclusionProofsOver P leaves (matched.map Prod.fst)).mapError .ledger
  let nowMs ← signingTime clock
  return { handle, head := treeHeadOver P key leaves nowMs, matched, proofs,
           truncated }

/-! ## What a probe finds in a written record -/

open Serde (defaulted expectStruct readOption readString)

theorem readProbeSubject_toDoc (subject : DecisionSubject) :
    readProbeSubject (docSource P.floats) subject.toDoc =
      .ok (some subject.handle) := by
  have hoption := readOption_stringDoc P.floats
  rcases subject with ⟨handle, scheme, purpose⟩
  cases scheme <;> cases purpose <;>
    simp [readProbeSubject, DecisionSubject.toDoc, expectStruct, defaulted,
      Serde.field, Serde.member, Serde.present, hoption, bind, Except.bind]

theorem readProbeEntry_toDoc (entry : Entry) :
    readProbeEntry (docSource P.floats) (entry.toDoc P.floats) =
      .ok (entry.decisionSubject.map fun subject => some subject.handle) := by
  have hfield : (entry.fields P.floats).lookup "decision_subject" =
      some (entry.decisionSubject.map DecisionSubject.toDoc) := rfl
  have hpresent {value : Option Doc}
      (hvalue : (entry.fields P.floats).lookup "decision_subject" =
        some value) :=
    Serde.defaulted_present (entry.fields_nodup P.floats) 0
      "decision_subject" hvalue none (readOption (docSource P.floats)
        (readProbeSubject (docSource P.floats)))
  unfold readProbeEntry Entry.toDoc
  simp only [Serde.docSource_shape, Serde.docShape_structDoc, expectStruct,
    bind, Except.bind]
  cases hsubject : entry.decisionSubject with
  | none =>
      rw [hsubject] at hfield
      rw [hpresent hfield]
      rfl
  | some subject =>
      rw [hsubject] at hfield
      rw [hpresent hfield]
      have hnull : subject.toDoc ≠ .null := structDoc_ne_null _
      simp only [Option.map_some]
      rw [Serde.readOption_of_ne_null P.floats hnull, readProbeSubject_toDoc]
      rfl

/-- A probe finds the handle a written record is under. -/
theorem recordedHandle_line (record : RecordOut) :
    recordedHandle P (record.line P) =
      record.entry.decisionSubject.map DecisionSubject.handle := by
  rcases readOutline_structDoc P (record.fields P) with
    ⟨outline, houtline, hshape⟩
  have hentry := Serde.defaulted_present (record.fields_nodup P) 0 "entry" rfl
    none (readProbeEntry (docSource P.floats))
  unfold recordedHandle
  rw [RecordOut.line, RecordOut.toDoc, String.toList_ofList, houtline]
  simp only [hshape, expectStruct, Serde.defaulted_mapMembers,
    JsonText.spanned, bind, Except.bind]
  rw [hentry]
  simp only [readProbeEntry_toDoc]
  cases record.entry.decisionSubject <;> rfl

/-! ## What the loop collects -/

/-- The records under a handle, with their numbers. -/
def about (handle : String) (seq : ℕ) : List RecordOut → List (ℕ × RecordOut)
  | [] => []
  | record :: rest =>
      if record.entry.decisionSubject.map DecisionSubject.handle =
          some handle then
        (seq, record) :: about handle (seq + 1) rest
      else about handle (seq + 1) rest

/-- A record under the handle, parsed in full. -/
def shown (found : ℕ × RecordOut) : Except LedgerError (ℕ × Value) :=
  match parseValue P (found.2.line P) with
  | none => .error (.serde (P.serdeMessage .unreadable))
  | some record => .ok (found.1, record)

theorem matchLines_written (handle : String) (records : List RecordOut)
    (seq : ℕ) (matched : List (ℕ × Value))
    (hmatched : matched.length ≤ maxProjectedDecisions) :
    matchLines P handle seq matched (records.map (RecordOut.line P)) =
      (((about handle seq records).take
          (maxProjectedDecisions - matched.length)).mapM (shown P)).map
        fun page => (matched ++ page, decide (maxProjectedDecisions -
          matched.length < (about handle seq records).length)) := by
  induction records generalizing seq matched with
  | nil => simp [matchLines, about, Except.map, pure, Except.pure]
  | cons record rest ih =>
      rw [List.map_cons, matchLines, recordedHandle_line, about]
      by_cases hsame : record.entry.decisionSubject.map DecisionSubject.handle =
          some handle
      · rw [if_neg (by simpa using hsame), if_pos hsame]
        by_cases hfull : maxProjectedDecisions ≤ matched.length
        · have hnone : maxProjectedDecisions - matched.length = 0 := by omega
          rw [if_pos hfull, hnone]
          simp [Except.map, pure, Except.pure]
        · have hroom : maxProjectedDecisions - matched.length =
              maxProjectedDecisions - (matched.length + 1) + 1 := by omega
          rw [if_neg hfull, hroom, List.take_succ_cons, List.mapM_cons]
          cases hvalue : parseValue P (record.line P) with
          | none => simp [shown, hvalue, bind, Except.bind, Except.map]
          | some value =>
              have hnext := ih (seq + 1) (matched ++ [(seq, value)]) (by
                rw [List.length_append, List.length_singleton]
                omega)
              rw [List.length_append, List.length_singleton] at hnext
              simp only [shown, hvalue, bind, Except.bind, pure, Except.pure]
              rw [hnext]
              cases ((about handle (seq + 1) rest).take
                (maxProjectedDecisions - (matched.length + 1))).mapM (shown P)
                <;> simp [Except.map]
      · rw [if_pos (by simpa using hsame), if_neg hsame]
        exact ih (seq + 1) matched hmatched

end Audit

end Decern
