import Decern.AuthorityKernel
import Decern.DecideRequest
import Decern.MissionBinding
import Mathlib.Tactic

/-!
# One decision

From an admitted request to the decision and its record: the context the
kernel sees is put together from the request's and the server's own facts, the
Mission it names is bound, and what the server reads itself is taken out before
the kernel is asked.
-/

namespace Decern.Decide

open Serde (Map SerdeError Value valueSource)

/-! ## Challenges -/

inductive ChallengeError where
  | malformed (detail : String)
  | standingNotProved (detail : String)
  | notBound (detail : String)
  deriving DecidableEq, Repr

def ChallengeError.kind : ChallengeError → String
  | .malformed _ => "malformed_challenge"
  | .standingNotProved _ => "standing_not_proved"
  | .notBound _ => "challenge_not_bound_to_decision"

def ChallengeError.detail : ChallengeError → String
  | .malformed detail => detail
  | .standingNotProved detail => detail
  | .notBound detail => detail

/-- A challenge whose standing has been proved for a party. -/
structure Challenge where
  party : String
  decisionRef : String
  basis : List String
  evidence : Option Value
  requestedEffect : String

inductive Outcome where
  | affirmPriorDecision (basis : String)
  | challengeClassified (basis : String)
  deriving DecidableEq, Repr

def Outcome.intoRecord : Outcome → String × String
  | .affirmPriorDecision basis => ("affirm_prior_decision", basis)
  | .challengeClassified basis => ("challenge_classified", basis)

def basesOnTheFacts : List String :=
  ["factual-error", "category-mismatch", "change-in-circumstances"]

/-- A challenge is classified or affirmed; neither changes the decision. -/
def answer (challenge : Challenge) (about : List String) : Outcome :=
  if challenge.party ∉ about then
    .affirmPriorDecision ("the challenge's standing names no party the " ++
      "decision's record is about")
  else
    match challenge.basis.find? (· ∈ basesOnTheFacts) with
    | some basis => .challengeClassified basis
    | none => .affirmPriorDecision ("no basis given (" ++
        String.intercalate ", " challenge.basis ++
        ") bears on the facts the decision was made from")

/-! ## The server -/

/-- The shard of a record; a single-file backend has none. -/
abbrev RecordShard := Option (Except String String)

/-- What a handler answers from, as it stands when the request is decided. -/
structure Host (S P E C : Type) where
  engine : Engine S P E C
  kernel : Kernel S P E
  clock : Option UInt64
  missions : String → MissionStatus
  requireMission : Bool
  typeAliases : StringMap String
  parseChallenge : Value → UInt64 → Except ChallengeError Challenge
  serdeMessage : SerdeError → String
  digest : Value → String
  authorityDigest : String
  sharded : Bool

variable {S P E C : Type} (host : Host S P E C)

def Host.dir : Graph.Directory := host.kernel.directory

/-- A request's entity type in the model's terms. -/
def Host.modelType (requestType : String) : String :=
  (host.typeAliases[requestType]?).getD requestType

def Host.ownerOf (resource : String) : Option String :=
  (host.dir.resources[resource]?).map Graph.ResourceRec.owner

/-! ## The context -/

/-- A party's description stands under the party's name and nowhere else. -/
def describe (context : Map) (key : String) (properties : Option Map) : Map :=
  match properties with
  | some properties =>
      Map.insert (Map.remove context key) key (.object properties)
  | none => Map.remove context key

/-- The context as the kernel will see it, before the server's own keys are
out: the clock is the server's, and who asserted it the record's column. -/
def kernelContext (context : Map) (subject resource action : Option Map)
    (now : UInt64) : Value :=
  let context := Map.remove
    (Map.insert context "now" (.number (.posInt now))) "asserted_by"
  let context := describe context "subject" subject
  let context := describe context "resource" resource
  .object (describe context "action" action)

def contextTooLarge (floats : Serde.FloatText) (context : Value) : Bool :=
  decide (64 * 1024 < (String.ofList
    (JsonText.print (context.toDoc floats))).utf8ByteSize)

/-- An empty description says nothing. -/
def described (properties : Option Map) : Option Map :=
  properties.filter fun members => !members.isEmpty

def prepareContext (caller : Option Authenticated) (context : Map)
    (subject resource action : Option Map) :
    Except Refusal (Value × UInt64 × Option AssertedBy) :=
  match host.clock with
  | none => .error .clockUnavailable
  | some now =>
      let ctx := kernelContext context subject resource action now
      if contextTooLarge host.engine.floats ctx then .error .contextTooLarge
      else .ok (ctx, now, assertedBy caller)

def stripClientApprovalFlags (ctx : Value) : Value :=
  (ctx.remove "human_approved").remove "consent"

/-- The flags are the grant's, never the body's. -/
def applyMissionContext (ctx : Value) (action : String) : Value :=
  let ctx := stripClientApprovalFlags ctx
  if action = "MoveMoney" then ctx.insert "human_approved" (.bool true)
  else ctx

/-- What the request named as its Mission, as an auditor sees it. -/
def namedForRecord (mission : Value) : Value :=
  let field (name : String) : Value :=
    .string (RustText.bounded
      (((mission.get name).bind Value.asStr).getD "") 256)
  .object [("approver", field "approver"), ("s256", field "s256")]

/-- What came of binding a Mission. -/
structure MissionOutcome where
  bound : Option MissionRef
  errors : List String
  named : Option Value

/-- The bound Mission and the errors, with the context they leave. -/
def applyBind (bind : MissionBind) (ctx : Value) (action : String) :
    Option MissionRef × List String × Value :=
  match bind with
  | .none => (none, [], ctx)
  | .ok reference => (some reference, [], applyMissionContext ctx action)
  | .deny errors => (none, errors, stripClientApprovalFlags ctx)

/-- The party the decision is about, where that is a third party. -/
def takeDecisionSubject (raw : Option Value) (subjectId : String)
    (resourceOwner : Option String) :
    Except String (Option DecisionSubject) :=
  match raw.filter fun raw => !raw.isNull with
  | none => .ok none
  | some raw =>
      match readDecisionSubject valueSource 0 raw with
      | .error error =>
          .error ("decision_subject must be a handle or an object with " ++
            "one: " ++ host.serdeMessage error)
      | .ok subject =>
          if RustText.isBlank subject.handle then
            .error "decision_subject handle must not be empty"
          else if '@' ∈ subject.handle.toList then
            .error ("decision_subject handle must be a pseudonymous " ++
              "reference, not an address a party could be identified or " ++
              "contacted by")
          else if subject.handle = subjectId ∨
              some subject.handle = resourceOwner then .ok none
          else .ok (some subject)

/-! ## Preparing and deciding -/

/-- A request made ready to decide. -/
structure Prepared where
  now : UInt64
  subject : EntityRef
  action : String
  resource : EntityRef
  ctx : Value
  assertedBy : Option AssertedBy
  mission : MissionOutcome
  challenge : Option Value
  decisionSubject : Option DecisionSubject

def DecideReq.names (req : DecideReq) : List (String × String) :=
  [("subject.type", req.subject.ty), ("subject.id", req.subject.id),
    ("resource.type", req.resource.ty), ("resource.id", req.resource.id),
    ("action.name", req.action.name)]

/-- Every key the server reads itself is out before the context is pruned, and
it is pruned before it is checked. -/
def prepare (caller : Option Authenticated) (req : DecideReq) :
    Except Refusal Prepared := do
  if let some refusal := nameTooLarge req.names then .error refusal
  let (ctx, now, assertedBy) ← prepareContext host caller
    (req.context.getD []) (described req.subject.properties)
    (described req.resource.properties) (described req.action.properties)
  let subject : EntityRef :=
    ⟨host.modelType req.subject.ty, req.subject.id⟩
  let resource : EntityRef :=
    ⟨host.modelType req.resource.ty, req.resource.id⟩
  let action := req.action.name
  let bind := bindMission host.missions host.dir host.requireMission
    subject.id action ctx now
  let (bound, errors, ctx) := applyBind bind ctx action
  let named := (ctx.get "mission").map namedForRecord
  let ctx := ctx.remove "mission"
  let challenge := (ctx.get "subject_side_challenge").filter
    fun raw => !raw.isNull
  let ctx := ctx.remove "subject_side_challenge"
  let decisionSubject ← (takeDecisionSubject host (ctx.get "decision_subject")
    subject.id (host.ownerOf resource.id)).mapError
      (Refusal.unprocessable "decision_subject")
  let ctx := ctx.remove "decision_subject"
  return {
    now, subject, action, resource, assertedBy, challenge, decisionSubject
    ctx := host.kernel.pruneUndeclaredContext action ctx
    mission := { bound, errors, named } }

/-- The kernel's decision, a Deny where a Mission was needed and none bound. -/
def decidePrepared (p : Prepared) : CheckResponse :=
  let r := host.kernel.check host.engine p.subject p.action p.resource p.ctx
  if p.mission.errors.isEmpty then r
  else { decision := false, reasons := [],
         errors := r.errors ++ p.mission.errors }

/-- The challenge's answer, after the decision has been made. -/
def answerChallenge (p : Prepared) :
    Except Refusal (Option ChallengeRecord) :=
  match p.challenge with
  | none => .ok none
  | some raw =>
      match host.parseChallenge raw p.now with
      | .error error =>
          .error (.unprocessable error.kind error.detail)
      | .ok challenge =>
          let about := match p.decisionSubject with
            | some subject => [subject.handle]
            | none => p.subject.id :: (host.ownerOf p.resource.id).toList
          let (outcome, outcomeBasis) := (answer challenge about).intoRecord
          .ok (some {
            outcome, outcomeBasis
            decisionRef := challenge.decisionRef
            decisionSubject := challenge.party
            basis := challenge.basis
            requestedEffect := challenge.requestedEffect
            evidenceDigest := challenge.evidence.map host.digest })

/-! ## The record -/

/-- The root of the subject's delegation chain, from the directory alone. -/
def resolveSponsor (dir : Graph.Directory) (subjectId : String) :
    Option Party :=
  if (dir.principals[subjectId]?).isSome then
    some ⟨"Principal", (dir.ancestorsOf subjectId).getLast?.getD subjectId⟩
  else none

def resolveShard (dir : Graph.Directory) (subjectId : String) :
    Except String String :=
  match (dir.principals[subjectId]?).filter fun p => p.tenant != "" with
  | some p =>
      if p.tenant = Graph.reservedTenant then
        .error ("subject " ++ subjectId ++ "'s tenant collides with the " ++
          "reserved shard \"" ++ Graph.reservedTenant ++ "\"")
      else .ok p.tenant
  | none => .ok Graph.reservedTenant

def shardFor (sharded : Bool) (dir : Graph.Directory) (subjectId : String) :
    RecordShard :=
  if sharded then some (resolveShard dir subjectId) else none

/-- A string, or `null`. -/
def optionValue (value : Option Value) : Value := value.getD .null

def missionValue (mission : MissionRef) : Value :=
  .object [("approver", .string mission.approver),
    ("s256", .string mission.s256)]

def decisionSubjectValue (subject : DecisionSubject) : Value :=
  .object ([("handle", Value.string subject.handle)] ++
    (subject.scheme.map fun scheme => ("scheme", Value.string scheme)).toList ++
    (subject.purpose.map fun purpose =>
      ("purpose", Value.string purpose)).toList)

/-- Exactly what was evaluated, for the record's parameters digest. -/
def parametersOf (p : Prepared) (ctx : Value) : Value :=
  .object [
    ("subject", .object [("type", .string p.subject.ty),
      ("id", .string p.subject.id)]),
    ("action", .string p.action),
    ("resource", .object [("type", .string p.resource.ty),
      ("id", .string p.resource.id)]),
    ("context", ctx),
    ("mission", optionValue (p.mission.bound.map missionValue)),
    ("decision_subject",
      optionValue (p.decisionSubject.map decisionSubjectValue))]

/-- The record of a decision and the shard it belongs to. -/
def recordOf (p : Prepared) (r : CheckResponse)
    (challenge : Option ChallengeRecord) : Entry × RecordShard :=
  let ctx := match p.mission.named with
    | some named => p.ctx.insert "mission" named
    | none => p.ctx
  ({ tsMs := UInt64.ofNat (min (p.now.toNat * 1000) (UInt64.size - 1))
     subjectType := p.subject.ty
     subjectId := p.subject.id
     action := p.action
     resourceType := p.resource.ty
     resourceId := p.resource.id
     context := ctx
     decision := r.decision
     reasons := r.reasons
     sponsor := resolveSponsor host.dir p.subject.id
     mission := p.mission.bound
     decisionSubject := p.decisionSubject
     noticeRequired := p.decisionSubject.isSome
     assertedBy := p.assertedBy
     challenge := challenge
     digests := [("authority", host.authorityDigest),
       ("parameters", host.digest (parametersOf p ctx))] },
    shardFor host.sharded host.dir p.subject.id)

/-- One decision, made and ready to record. -/
structure Evaluated where
  decision : Bool
  reasons : List String
  errors : List String
  entry : Entry
  shard : RecordShard

/-- Prepared, decided, the challenge answered, the record built. -/
def evaluateOne (caller : Option Authenticated) (req : DecideReq) :
    Except Refusal Evaluated := do
  let p ← prepare host caller req
  let r := decidePrepared host p
  let challenge ← answerChallenge host p
  let (entry, shard) := recordOf host p r challenge
  return { decision := r.decision, reasons := r.reasons, errors := r.errors,
           entry, shard }

end Decern.Decide
