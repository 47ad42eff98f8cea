import Decern.JsonData
import Decern.LedgerEntry
import Decern.RustText
import Mathlib.Tactic

/-!
# Requests for a decision

What an evaluation request holds, how it is read off JSON, and what a caller
may ask at all: a caller bound to itself names, describes and speaks about
nobody else.
-/

namespace Decern.Decide

open Serde (Map SerdeError Source Value defaulted expectStruct readMap
  readOption readString required)

/-! ## The request -/

/-- A subject or a resource. -/
structure Ref where
  ty : String
  id : String
  properties : Option Map := none

structure Action where
  name : String
  properties : Option Map := none

structure DecideReq where
  subject : Ref
  action : Action
  resource : Ref
  context : Option Map := none

section Readers

variable {δ : Type} (source : Source δ) (depth : ℕ)

/-- `depth` brackets are open around the tree. -/
def readRef (tree : δ) : Except SerdeError Ref := do
  let shape := source.shape tree
  expectStruct 3 shape
  let ty ← required shape 0 "type" (readString source)
  let id ← required shape 1 "id" (readString source)
  let properties ← defaulted shape 2 "properties" none
    (readOption source (readMap source (depth + 1)))
  return { ty, id, properties }

def readAction (tree : δ) : Except SerdeError Action := do
  let shape := source.shape tree
  expectStruct 2 shape
  let name ← required shape 0 "name" (readString source)
  let properties ← defaulted shape 1 "properties" none
    (readOption source (readMap source (depth + 1)))
  return { name, properties }

def readDecideReq (tree : δ) : Except SerdeError DecideReq := do
  let shape := source.shape tree
  expectStruct 4 shape
  let subject ← required shape 0 "subject" (readRef source 1)
  let action ← required shape 1 "action" (readAction source 1)
  let resource ← required shape 2 "resource" (readRef source 1)
  let context ← defaulted shape 3 "context" none
    (readOption source (readMap source 1))
  return { subject, action, resource, context }

end Readers

/-- The handle a request names as its decision subject, read for admission
only. -/
def namedDecisionSubject (raw : Option Value) : Option String :=
  raw.bind fun raw =>
    raw.asStr <|> (raw.get "handle").bind Value.asStr

/-- Whom a request names, whether it describes a party, and whom it is about. -/
structure Facts where
  subjectId : Option String
  describes : Bool
  decisionSubject : Option String
  deriving DecidableEq, Repr

def describing (properties : Option Map) : Bool :=
  properties.any fun members => !members.isEmpty

def DecideReq.facts (req : DecideReq) : Facts where
  subjectId := some req.subject.id
  describes := describing req.subject.properties ||
    describing req.resource.properties || describing req.action.properties
  decisionSubject := req.context.bind fun context =>
    namedDecisionSubject (context.get "decision_subject")

/-! ## Refusals -/

inductive Status where
  | badRequest
  | forbidden
  | payloadTooLarge
  | unprocessable
  | unavailable
  deriving DecidableEq, Repr

def Status.code : Status → ℕ
  | .badRequest => 400
  | .forbidden => 403
  | .payloadTooLarge => 413
  | .unprocessable => 422
  | .unavailable => 503

structure Refusal where
  status : Status
  error : String
  detail : String
  deriving DecidableEq, Repr

namespace Refusal

/-- A detail quotes the caller's own input, bounded. -/
def new (status : Status) (error detail : String) : Refusal :=
  { status, error, detail := RustText.bounded detail 512 }

def unavailable : String → String → Refusal := new .unavailable

def unprocessable : String → String → Refusal := new .unprocessable

def invalidRequest : String → Refusal := new .badRequest "invalid_request"

def tooLarge : String → String → Refusal := new .payloadTooLarge

def contextTooLarge : Refusal :=
  tooLarge "context_too_large" "context exceeds 64 KiB, properties included"

def clockUnavailable : Refusal :=
  unavailable "clock_unavailable" "the server's clock reads before 1970"

end Refusal

/-! ## Callers -/

/-- How tightly a verified caller is bound to the principals it names. -/
inductive Bind where
  | any
  | selfOnly
  deriving DecidableEq, Repr

structure Authenticated where
  subject : String
  clientId : String
  issuer : Option String
  bind : Bind
  deriving DecidableEq, Repr

def Authenticated.admits (who : Authenticated) (named : String) : Bool :=
  match who.bind with
  | .any => true
  | .selfOnly => who.subject == named

/-- An echo of the caller's own text. -/
def brief (text : String) : String :=
  RustText.bounded (RustText.trim text) 64

/-- A caller behind a trusted front is not known here. -/
def assertedBy (caller : Option Authenticated) : Option AssertedBy :=
  caller.map fun who =>
    { sub := who.subject, clientId := who.clientId, iss := who.issuer }

def refuseUnlessAdmits (caller : Option Authenticated) (named : String) :
    Option Refusal :=
  match caller with
  | none => none
  | some who =>
      if who.admits named then none
      else some ⟨.forbidden, "caller_mismatch", "caller " ++
        brief who.subject ++ " cannot name principal " ++ brief named⟩

def refuseUnlessPep (caller : Option Authenticated) (what : String) :
    Option Refusal :=
  match caller with
  | some who =>
      if who.bind = .selfOnly then
        some ⟨.forbidden, "caller_mismatch", "caller " ++
          brief who.subject ++ " is bound to itself and cannot " ++ what ++
          "; a PEP listed in --pep can"⟩
      else none
  | none => none

def refuseDescriptionUnlessPep (caller : Option Authenticated) :
    Option Refusal :=
  refuseUnlessPep caller "describe the subject, resource or action"

/-- What a caller may ask at all, before anything is evaluated. -/
def admitNamed (caller : Option Authenticated) (facts : Facts) :
    Option Refusal :=
  (facts.subjectId.bind (refuseUnlessAdmits caller)) <|>
    (facts.decisionSubject.bind (refuseUnlessAdmits caller)) <|>
    (if facts.describes then refuseDescriptionUnlessPep caller else none)

def admitReq (caller : Option Authenticated) (req : DecideReq) :
    Option Refusal :=
  admitNamed caller req.facts

/-- The first of the names that is longer than 1 KiB. -/
def nameTooLarge (names : List (String × String)) : Option Refusal :=
  (names.find? fun name => 1024 < name.2.utf8ByteSize).map fun name =>
    Refusal.tooLarge "name_too_large" (name.1 ++ " exceeds 1 KiB")

end Decern.Decide
