import Decern.SerdeRead
import Mathlib.Tactic

/-!
# Ledger entries

The entry of a record, the text it is serialized to, and what its derived
reader takes from text.  A member that is skipped when it has its default is
absent from the text and read back as that default.
-/

namespace Decern

open JsonText (Doc)
open Serde (FloatText SerdeError Source Value docShape docSource objectDoc
  present stringDoc structDoc)

/-! ## The data -/

inductive EdgeType where
  | attenuate
  | mint
  deriving DecidableEq, Repr

inductive SponsorSource where
  | derived
  | explicit
  deriving DecidableEq, Repr

structure Party where
  kind : String
  id : String
  deriving DecidableEq, Repr

structure MissionRef where
  approver : String
  s256 : String
  deriving DecidableEq, Repr

structure DecisionSubject where
  handle : String
  scheme : Option String
  purpose : Option String
  deriving DecidableEq, Repr

structure AssertedBy where
  sub : String
  clientId : String
  iss : Option String
  deriving DecidableEq, Repr

structure ChallengeRecord where
  decisionRef : String
  decisionSubject : String
  basis : List String
  requestedEffect : String
  outcome : String
  outcomeBasis : String
  evidenceDigest : Option String
  deriving DecidableEq, Repr

/-- One record's entry. -/
structure Entry where
  seq : ℕ := 0
  tsMs : UInt64 := 0
  subjectType : String := ""
  subjectId : String := ""
  action : String := ""
  resourceType : String := ""
  resourceId : String := ""
  context : Value := .null
  decision : Bool := false
  reasons : List String := []
  edge : EdgeType := .attenuate
  sponsor : Option Party := none
  sponsorSource : SponsorSource := .derived
  mission : Option MissionRef := none
  decisionSubject : Option DecisionSubject := none
  assertedBy : Option AssertedBy := none
  noticeRequired : Bool := false
  challenge : Option ChallengeRecord := none
  digests : List (String × String) := []
  deriving Repr

/-! ## Serialization -/

/-- A field under `skip_serializing_if`. -/
def skipFalse (value : Bool) : Option Doc :=
  if value then some (.bool true) else none

def Party.toDoc (party : Party) : Doc :=
  structDoc [("kind", stringDoc party.kind), ("id", stringDoc party.id)]

def MissionRef.toDoc (mission : MissionRef) : Doc :=
  structDoc [("approver", stringDoc mission.approver),
    ("s256", stringDoc mission.s256)]

def DecisionSubject.toDoc (subject : DecisionSubject) : Doc :=
  structDoc [("handle", stringDoc subject.handle),
    ("scheme", subject.scheme.map stringDoc),
    ("purpose", subject.purpose.map stringDoc)]

def AssertedBy.toDoc (caller : AssertedBy) : Doc :=
  structDoc [("sub", stringDoc caller.sub),
    ("client_id", stringDoc caller.clientId),
    ("iss", caller.iss.map stringDoc)]

def ChallengeRecord.toDoc (challenge : ChallengeRecord) : Doc :=
  structDoc [("decision_ref", stringDoc challenge.decisionRef),
    ("decision_subject", stringDoc challenge.decisionSubject),
    ("basis", Doc.array (challenge.basis.map stringDoc)),
    ("requested_effect", stringDoc challenge.requestedEffect),
    ("outcome", stringDoc challenge.outcome),
    ("outcome_basis", stringDoc challenge.outcomeBasis),
    ("evidence_digest", challenge.evidenceDigest.map stringDoc)]

def EdgeType.toDoc : EdgeType → Option Doc
  | .attenuate => none
  | .mint => some (stringDoc "Mint")

def SponsorSource.toDoc : SponsorSource → Option Doc
  | .derived => none
  | .explicit => some (stringDoc "Explicit")

def digestsDoc (digests : List (String × String)) : Option Doc :=
  if digests.isEmpty then none
  else some (objectDoc
    (digests.map fun digest => (digest.1, stringDoc digest.2)))

/-- The fields of a serialized entry, in order. -/
def Entry.fields (floats : FloatText) (entry : Entry) :
    List (String × Option Doc) :=
  [("seq", Doc.number (Serde.naturalText entry.seq)),
    ("ts_ms", Doc.number (Serde.naturalText entry.tsMs.toNat)),
    ("subject_type", stringDoc entry.subjectType),
    ("subject_id", stringDoc entry.subjectId),
    ("action", stringDoc entry.action),
    ("resource_type", stringDoc entry.resourceType),
    ("resource_id", stringDoc entry.resourceId),
    ("context", entry.context.toDoc floats),
    ("decision", Doc.bool entry.decision),
    ("reasons", Doc.array (entry.reasons.map stringDoc)),
    ("edge", entry.edge.toDoc),
    ("sponsor", entry.sponsor.map Party.toDoc),
    ("sponsor_source", entry.sponsorSource.toDoc),
    ("mission", entry.mission.map MissionRef.toDoc),
    ("decision_subject", entry.decisionSubject.map DecisionSubject.toDoc),
    ("asserted_by", entry.assertedBy.map AssertedBy.toDoc),
    ("notice_required", skipFalse entry.noticeRequired),
    ("challenge", entry.challenge.map ChallengeRecord.toDoc),
    ("digests", digestsDoc entry.digests)]

def Entry.toDoc (floats : FloatText) (entry : Entry) : Doc :=
  structDoc (entry.fields floats)

/-! ## Derived readers -/

section Readers

variable {δ : Type} (source : Source δ)

open Serde (defaulted expectStruct readOption readString readVec required)

/-- A unit variant, as its name or as an object of its name and `null`. -/
def readVariant {α : Type} (variants : List (String × α)) (tree : δ) :
    Except SerdeError α :=
  let named (name : String) : Except SerdeError α :=
    match variants.lookup name with
    | some value => .ok value
    | none => .error (.noVariant name)
  match source.shape tree with
  | .string name => named name
  | .object [(name, inner)] =>
      match source.shape inner with
      | .null => named name
      | _ => .error (.invalidType "unit variant")
  | _ => .error (.invalidType "an enum")

def readParty (tree : δ) : Except SerdeError Party := do
  let shape := source.shape tree
  expectStruct 2 shape
  let kind ← required shape 0 "kind" (readString source)
  let id ← required shape 1 "id" (readString source)
  return { kind, id }

def readMissionRef (tree : δ) : Except SerdeError MissionRef := do
  let shape := source.shape tree
  expectStruct 2 shape
  let approver ← required shape 0 "approver" (readString source)
  let s256 ← required shape 1 "s256" (readString source)
  return { approver, s256 }

def readAssertedBy (tree : δ) : Except SerdeError AssertedBy := do
  let shape := source.shape tree
  expectStruct 3 shape
  let sub ← required shape 0 "sub" (readString source)
  let clientId ← required shape 1 "client_id" (readString source)
  let iss ← defaulted shape 2 "iss" none
    (readOption source (readString source))
  return { sub, clientId, iss }

def readChallengeRecord (tree : δ) : Except SerdeError ChallengeRecord := do
  let shape := source.shape tree
  expectStruct 7 shape
  let decisionRef ← required shape 0 "decision_ref" (readString source)
  let decisionSubject ← required shape 1 "decision_subject"
    (readString source)
  let basis ← required shape 2 "basis" (readVec source (readString source))
  let requestedEffect ← required shape 3 "requested_effect"
    (readString source)
  let outcome ← required shape 4 "outcome" (readString source)
  let outcomeBasis ← required shape 5 "outcome_basis" (readString source)
  let evidenceDigest ← defaulted shape 6 "evidence_digest" none
    (readOption source (readString source))
  return { decisionRef, decisionSubject, basis, requestedEffect, outcome,
           outcomeBasis, evidenceDigest }

/-- A bare handle or the full object; the untagged enum behind it reads the
object by name only, after taking the whole of it in. -/
def readDecisionSubject (depth : ℕ) (tree : δ) :
    Except SerdeError DecisionSubject := do
  match source.value depth tree with
  | none => .error .unreadable
  | some _ =>
      match source.shape tree with
      | .string handle => return { handle, scheme := none, purpose := none }
      | .object members =>
          let shape := Serde.Shape.object members
          let handle ← required shape 0 "handle" (readString source)
          let scheme ← defaulted shape 1 "scheme" none
            (readOption source (readString source))
          let purpose ← defaulted shape 2 "purpose" none
            (readOption source (readString source))
          return { handle, scheme, purpose }
      | _ => .error (.noVariant "Wire")

/-- The entry a whole text holds. -/
def readEntry (tree : δ) : Except SerdeError Entry := do
  let shape := source.shape tree
  expectStruct 19 shape
  let seq ← required shape 0 "seq" (Serde.readNatural source)
  let tsMs ← required shape 1 "ts_ms" (Serde.readU64 source)
  let subjectType ← required shape 2 "subject_type" (readString source)
  let subjectId ← required shape 3 "subject_id" (readString source)
  let action ← required shape 4 "action" (readString source)
  let resourceType ← required shape 5 "resource_type" (readString source)
  let resourceId ← required shape 6 "resource_id" (readString source)
  let context ← required shape 7 "context" (Serde.readAnyValue source 1)
  let decision ← required shape 8 "decision" (Serde.readBool source)
  let reasons ← required shape 9 "reasons"
    (readVec source (readString source))
  let edge ← defaulted shape 10 "edge" .attenuate
    (readVariant source [("Attenuate", .attenuate), ("Mint", .mint)])
  let sponsor ← defaulted shape 11 "sponsor" none
    (readOption source (readParty source))
  let sponsorSource ← defaulted shape 12 "sponsor_source" .derived
    (readVariant source [("Derived", .derived), ("Explicit", .explicit)])
  let mission ← defaulted shape 13 "mission" none
    (readOption source (readMissionRef source))
  let decisionSubject ← defaulted shape 14 "decision_subject" none
    (readOption source (readDecisionSubject source 1))
  let assertedBy ← defaulted shape 15 "asserted_by" none
    (readOption source (readAssertedBy source))
  let noticeRequired ← defaulted shape 16 "notice_required" false
    (Serde.readBool source)
  let challenge ← defaulted shape 17 "challenge" none
    (readOption source (readChallengeRecord source))
  let digests ← defaulted shape 18 "digests" []
    (Serde.readStringMap source)
  return { seq, tsMs, subjectType, subjectId, action, resourceType,
           resourceId, context, decision, reasons, edge, sponsor,
           sponsorSource, mission, decisionSubject, assertedBy,
           noticeRequired, challenge, digests }

end Readers

/-! ## What is written is read back -/

section RoundTrip

open Serde (defaulted expectStruct readOption readString readVec required)

variable (floats : FloatText)

theorem readParty_toDoc (party : Party) :
    readParty (docSource floats) party.toDoc = .ok party := by
  have hread := Serde.readString_stringDoc floats
  simp [readParty, Party.toDoc, expectStruct, required, Serde.field,
    Serde.member, present, hread, bind, Except.bind, pure, Except.pure]

theorem readMissionRef_toDoc (mission : MissionRef) :
    readMissionRef (docSource floats) mission.toDoc = .ok mission := by
  have hread := Serde.readString_stringDoc floats
  simp [readMissionRef, MissionRef.toDoc, expectStruct, required,
    Serde.field, Serde.member, present, hread, bind, Except.bind, pure,
    Except.pure]

theorem readOption_stringDoc (value : String) :
    readOption (docSource floats) (readString (docSource floats))
        (stringDoc value) = .ok (some value) := by
  rw [Serde.readOption_of_ne_null floats (by simp [stringDoc]),
    Serde.readString_stringDoc]
  rfl

theorem readAssertedBy_toDoc (caller : AssertedBy) :
    readAssertedBy (docSource floats) caller.toDoc = .ok caller := by
  have hread := Serde.readString_stringDoc floats
  have hoption := readOption_stringDoc floats
  obtain ⟨sub, clientId, iss⟩ := caller
  cases iss <;>
    simp [readAssertedBy, AssertedBy.toDoc, expectStruct, required,
      defaulted, Serde.field, Serde.member, present, hread, hoption, bind,
      Except.bind, pure, Except.pure]

theorem readChallengeRecord_toDoc (challenge : ChallengeRecord) :
    readChallengeRecord (docSource floats) challenge.toDoc =
      .ok challenge := by
  have hread := Serde.readString_stringDoc floats
  have hoption := readOption_stringDoc floats
  have hvec := Serde.readVec_stringDoc floats
  obtain ⟨ref, subject, basis, effect, outcome, reason, digest⟩ := challenge
  cases digest <;>
    simp [readChallengeRecord, ChallengeRecord.toDoc, expectStruct, required,
      defaulted, Serde.field, Serde.member, present, hread, hoption, hvec,
      bind, Except.bind, pure, Except.pure]

theorem readValue_decisionSubject (subject : DecisionSubject) :
    ∃ value, Serde.readValue floats 1 subject.toDoc = some value := by
  obtain ⟨handle, scheme, purpose⟩ := subject
  cases scheme <;> cases purpose <;>
    simp [DecisionSubject.toDoc, structDoc, objectDoc, present,
      Serde.readValue, Doc.nesting, Doc.nestingMembers, stringDoc,
      Value.ofDoc, Value.ofMembers, Serde.recursionLimit]

theorem readDecisionSubject_toDoc (subject : DecisionSubject) :
    readDecisionSubject (docSource floats) 1 subject.toDoc = .ok subject := by
  have hread := Serde.readString_stringDoc floats
  have hoption := readOption_stringDoc floats
  obtain ⟨value, hvalue⟩ := readValue_decisionSubject floats subject
  have hsource : (docSource floats).value 1 subject.toDoc = some value :=
    hvalue
  obtain ⟨handle, scheme, purpose⟩ := subject
  unfold readDecisionSubject
  rw [hsource]
  cases scheme <;> cases purpose <;>
    simp [DecisionSubject.toDoc, required, defaulted, Serde.field,
      Serde.member, present, hread, hoption, bind, Except.bind, pure,
      Except.pure]

theorem structDoc_ne_null (fields : List (String × Option Doc)) :
    structDoc fields ≠ .null := by
  simp [structDoc, objectDoc]

/-- An optional struct is absent when it is none and read back otherwise. -/
theorem defaulted_optional {α : Type} {fields : List (String × Option Doc)}
    (hnames : (fields.map Prod.fst).Nodup) (index : ℕ) (name : String)
    {toDoc : α → Doc} {value : Option α}
    (hfield : fields.lookup name = some (value.map toDoc))
    {read : Doc → Except SerdeError α}
    (hread : ∀ inner, read (toDoc inner) = .ok inner)
    (hnull : ∀ inner, toDoc inner ≠ .null) :
    defaulted (.object (present fields)) index name none
      (readOption (docSource floats) read) = .ok value := by
  rw [Serde.defaulted_present hnames index name hfield]
  cases value with
  | none => rfl
  | some inner =>
      simp only [Option.map_some]
      rw [Serde.readOption_of_ne_null floats (hnull inner), hread]
      rfl

theorem Entry.fields_nodup (entry : Entry) :
    ((entry.fields floats).map Prod.fst).Nodup := by
  have hnames : (entry.fields floats).map Prod.fst =
      ["seq", "ts_ms", "subject_type", "subject_id", "action",
        "resource_type", "resource_id", "context", "decision", "reasons",
        "edge", "sponsor", "sponsor_source", "mission", "decision_subject",
        "asserted_by", "notice_required", "challenge", "digests"] := rfl
  rw [hnames]
  decide

theorem readVariant_edge (edge : EdgeType) (doc : Doc)
    (hdoc : edge.toDoc = some doc) :
    readVariant (docSource floats)
      [("Attenuate", EdgeType.attenuate), ("Mint", EdgeType.mint)] doc =
        .ok edge := by
  cases edge with
  | attenuate => cases hdoc
  | mint =>
      cases hdoc
      simp only [readVariant, Serde.docSource_shape, stringDoc,
        Serde.docShape, JsonText.text_ofString]
      rfl

theorem readVariant_sponsorSource (source : SponsorSource) (doc : Doc)
    (hdoc : source.toDoc = some doc) :
    readVariant (docSource floats)
      [("Derived", SponsorSource.derived),
        ("Explicit", SponsorSource.explicit)] doc = .ok source := by
  cases source with
  | derived => cases hdoc
  | explicit =>
      cases hdoc
      simp only [readVariant, Serde.docSource_shape, stringDoc,
        Serde.docShape, JsonText.text_ofString]
      rfl

theorem edge_of_toDoc_none {edge : EdgeType} (hskip : edge.toDoc = none) :
    edge = .attenuate := by
  cases edge with
  | attenuate => rfl
  | mint => cases hskip

theorem sponsorSource_of_toDoc_none {source : SponsorSource}
    (hskip : source.toDoc = none) : source = .derived := by
  cases source with
  | derived => rfl
  | explicit => cases hskip

theorem eq_false_of_skipFalse_none {value : Bool}
    (hskip : skipFalse value = none) : value = false := by
  cases value with
  | false => rfl
  | true => cases hskip

theorem readBool_skipFalse {value : Bool} (doc : Doc)
    (hdoc : skipFalse value = some doc) :
    Serde.readBool (docSource floats) doc = .ok value := by
  cases value with
  | false => cases hdoc
  | true =>
      cases hdoc
      rfl

theorem eq_nil_of_digestsDoc_none {digests : List (String × String)}
    (hskip : digestsDoc digests = none) : digests = [] := by
  cases digests with
  | nil => rfl
  | cons first rest => simp [digestsDoc] at hskip

theorem readStringMap_digestsDoc {digests : List (String × String)}
    (doc : Doc) (hdoc : digestsDoc digests = some doc) :
    Serde.readStringMap (docSource floats) doc = .ok digests := by
  unfold digestsDoc at hdoc
  split at hdoc
  case isTrue => cases hdoc
  case isFalse =>
    cases hdoc
    exact Serde.readStringMap_objectDoc floats digests

/-- A field with a default is read back when its default is what is
skipped. -/
theorem defaulted_skipped {α : Type} {fields : List (String × Option Doc)}
    (hnames : (fields.map Prod.fst).Nodup) (index : ℕ) (name : String)
    {doc : Option Doc} (hfield : fields.lookup name = some doc)
    {default value : α} {read : Doc → Except SerdeError α}
    (hskip : doc = none → value = default)
    (hread : ∀ inner, doc = some inner → read inner = .ok value) :
    defaulted (.object (present fields)) index name default read =
      .ok value := by
  rw [Serde.defaulted_present hnames index name hfield]
  cases doc with
  | none => rw [hskip rfl]
  | some inner => exact hread inner rfl

/-- A serialized entry is read back with the context as JSON text keeps it,
and is unreadable when that context is too deep. -/
theorem readEntry_toDoc (entry : Entry) :
    readEntry (docSource floats) (entry.toDoc floats) =
      match Serde.readValue floats 1 (entry.context.toDoc floats) with
      | some context => .ok { entry with context }
      | none => .error .unreadable := by
  have hnames := entry.fields_nodup floats
  have hseq := Serde.required_present hnames 0 "seq" rfl
    (Serde.readNatural (docSource floats))
  have htsMs := Serde.required_present hnames 1 "ts_ms" rfl
    (Serde.readU64 (docSource floats))
  have hsubjectType := Serde.required_present hnames 2 "subject_type" rfl
    (readString (docSource floats))
  have hsubjectId := Serde.required_present hnames 3 "subject_id" rfl
    (readString (docSource floats))
  have haction := Serde.required_present hnames 4 "action" rfl
    (readString (docSource floats))
  have hresourceType := Serde.required_present hnames 5 "resource_type" rfl
    (readString (docSource floats))
  have hresourceId := Serde.required_present hnames 6 "resource_id" rfl
    (readString (docSource floats))
  have hcontext := Serde.required_present hnames 7 "context" rfl
    (Serde.readAnyValue (docSource floats) 1)
  have hdecision := Serde.required_present hnames 8 "decision" rfl
    (Serde.readBool (docSource floats))
  have hreasons := Serde.required_present hnames 9 "reasons" rfl
    (readVec (docSource floats) (readString (docSource floats)))
  have hedge := defaulted_skipped hnames 10 "edge" rfl
    edge_of_toDoc_none (readVariant_edge floats entry.edge)
  have hsponsor := defaulted_optional floats hnames 11 "sponsor" rfl
    (readParty_toDoc floats) (fun _ => structDoc_ne_null _)
  have hsource := defaulted_skipped hnames 12 "sponsor_source" rfl
    sponsorSource_of_toDoc_none
    (readVariant_sponsorSource floats entry.sponsorSource)
  have hmission := defaulted_optional floats hnames 13 "mission" rfl
    (readMissionRef_toDoc floats) (fun _ => structDoc_ne_null _)
  have hsubject := defaulted_optional floats hnames 14 "decision_subject" rfl
    (readDecisionSubject_toDoc floats) (fun _ => structDoc_ne_null _)
  have hasserted := defaulted_optional floats hnames 15 "asserted_by" rfl
    (readAssertedBy_toDoc floats) (fun _ => structDoc_ne_null _)
  have hnotice := defaulted_skipped hnames 16 "notice_required" rfl
    eq_false_of_skipFalse_none (readBool_skipFalse floats)
  have hchallenge := defaulted_optional floats hnames 17 "challenge" rfl
    (readChallengeRecord_toDoc floats) (fun _ => structDoc_ne_null _)
  have hdigests := defaulted_skipped hnames 18 "digests" rfl
    eq_nil_of_digestsDoc_none (readStringMap_digestsDoc floats)
  have hvalue : Serde.readAnyValue (docSource floats) 1
      (entry.context.toDoc floats) =
        match Serde.readValue floats 1 (entry.context.toDoc floats) with
        | some context => .ok context
        | none => .error .unreadable := rfl
  unfold readEntry Entry.toDoc
  simp only [Serde.docSource_shape, Serde.docShape_structDoc, expectStruct,
    hseq, htsMs, hsubjectType, hsubjectId, haction, hresourceType,
    hresourceId, hcontext, hdecision, hreasons, hedge, hsponsor, hsource,
    hmission, hsubject, hasserted, hnotice, hchallenge, hdigests,
    Serde.readNatural_naturalText, Serde.readU64_naturalText,
    Serde.readString_stringDoc, Serde.readVec_stringDoc, hvalue, bind,
    Except.bind, pure, Except.pure]
  cases Serde.readValue floats 1 (entry.context.toDoc floats) with
  | none => rfl
  | some context => rfl

end RoundTrip

end Decern
