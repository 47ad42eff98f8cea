import Decern.AgentBadge
import Decern.AuthorityKernel
import Mathlib.Tactic

/-!
# Token exchange

Minting a child credential under a delegator, plainly or under an approved
Mission: what is asked for is clamped to what the delegator holds, the badge is
signed, and its subject is admitted through the same load every model passes.
-/

namespace Decern

/-- The text of a kernel error. -/
def KernelError.text : KernelError → String
  | .schema message => "schema error: " ++ message
  | .validation message =>
      "policies are not well-typed against the schema:\n" ++ message
  | .graph message =>
      "authority graph rejected (attenuation violations):\n" ++ message
  | .entities message => "entities error: " ++ message

namespace Identity

open JsonText (Doc)
open Serde (Map Value)

/-! ## Admission -/

/-- The entity is the principal of an id. -/
def namesPrincipal (id : String) (entity : Value) : Bool :=
  match entity.get "uid" with
  | none => false
  | some uid =>
      decide ((uid.get "type").bind Value.asStr = some "Principal") &&
        decide ((uid.get "id").bind Value.asStr = some id)

def admittedAttrs (subject : BadgeSubject) (delegator : String) : Map :=
  [("kind", .string subject.kind), ("tenant", .string subject.tenant),
    ("expiry", .number (.posInt subject.expiry)),
    ("scopes", .array (subject.scopes.map Value.string)),
    ("delegator", principalRef delegator)]

/-- The entity a badge's subject becomes. -/
def admittedEntity (subject : BadgeSubject) (delegator : String) : Value :=
  .object [
    ("uid", .object [("type", .string "Principal"),
      ("id", .string subject.id)]),
    ("attrs", .object (admittedAttrs subject delegator)),
    ("parents", .array [])]

section Admission

variable {S P E C : Type} (engine : Engine S P E C) (J : Jose)

/-- The model with the principal, where the kernel loads it. -/
def loaded (model : Model S P) : Except IdentityError (Model S P) :=
  match Kernel.new engine model with
  | .ok _ => .ok model
  | .error (.graph violations) => .error (.admission violations)
  | .error error => .error (.model error.text)

/-- A verified badge's subject enters the graph only by delegation, and never
in the place of another principal. -/
def admitBadge (model : Model S P) (jws : String) (pinned : VerifyingKey)
    (now : UInt64) : Except IdentityError (Model S P × Badge) := do
  let badge ← verify J jws pinned now
  let subject := badge.subject
  if subject.kind ≠ "Agent" then
    .error (.subjectInvalid ("only Agent badges are admissible, got kind " ++
      subject.kind))
  else
    match subject.delegator with
    | none =>
        .error (.subjectInvalid ("an agent enters the graph only by " ++
          "delegation (no delegator claim)"))
    | some delegator =>
        match model.entities with
        | .array list =>
            if list.any (namesPrincipal subject.id) then
              .error (.alreadyExists subject.id)
            else
              let next ← loaded engine { model with
                entities := .array
                  (list ++ [admittedEntity subject delegator]) }
              return (next, badge)
        | _ => .error (.model "entities is not a JSON array")

end Admission

/-! ## Exchange -/

structure ExchangeRequest where
  delegatorId : String
  subAgentId : String
  requestedScopes : List String
  requestedExpiry : UInt64
  now : UInt64
  mission : Option MissionRef
  aud : Option String

structure Exchanged (S P : Type) where
  token : String
  badge : Badge
  model : Model S P

/-- Namespaces whose ids stand for a provenance of their own. -/
def reservedSubjectIdPrefixes : List String :=
  ["fed:", "id-jag:", "oauth:", "spiffe://"]

def reservedSubjectIdPrefix (id : String) : Option String :=
  reservedSubjectIdPrefixes.find? fun reserved =>
    reserved.toList.isPrefixOf id.toList

/-- What is requested, narrowed to what the delegator holds. -/
def clampDelegation (delScopes : List String) (delExpiry : UInt64)
    (requestedScopes : List String) (requestedExpiry : UInt64) :
    List String × UInt64 :=
  (requestedScopes.filter fun scope => decide (scope ∈ delScopes),
    min requestedExpiry delExpiry)

/-- The attributes of a principal, read off the model's entities. -/
def principalAttrs (entities : Value) (id : String) : Option Value :=
  entities.asArray.bind fun list => list.findSome? fun entity =>
    if namesPrincipal id entity then entity.get "attrs" else none

def delegatorAttrs (entities : Value) (id : String) :
    Option (String × UInt64 × List String) := do
  let attrs ← principalAttrs entities id
  let tenant ← (attrs.get "tenant").bind Value.asStr
  let expiry ← (attrs.get "expiry").bind Value.asU64
  let scopes ← (attrs.get "scopes").bind Value.asArray
  return (tenant, expiry, scopes.filterMap Value.asStr)

/-- The child's badge: as long as its own authority, and no wider. -/
def mintedBadge (req : ExchangeRequest) (tenant : String)
    (scopes : List String) (expiry : UInt64) : Badge where
  context := [vcContext]
  id := some ("urn:decern:token:" ++ req.subAgentId)
  types := ["VerifiableCredential", badgeType]
  issuer := "did:decern:issuer"
  validFrom := req.now
  validUntil := expiry
  credentialSchema := none
  mission := req.mission
  subject := {
    id := req.subAgentId
    kind := "Agent"
    tenant
    scopes
    delegator := some req.delegatorId
    expiry
    aud := req.aud }

section Exchange

variable {S P E C : Type} (engine : Engine S P E C) (J : Jose)

/-- The mission binding is the delegator's own, the id in no namespace this
path is not entitled to. -/
def refuseForgery (req : ExchangeRequest) (allowed : List String) :
    Option IdentityError :=
  match (reservedSubjectIdPrefix req.subAgentId).filter
      fun reserved => reserved ∉ allowed with
  | some reserved =>
      some (.subjectInvalid ("sub_agent_id may not use the reserved `" ++
        reserved ++ "` identity-namespace prefix — " ++
        "this mint path is not entitled to it"))
  | none =>
      match req.mission.filter
          fun mission => mission.approver ≠ req.delegatorId with
      | some mission =>
          some (.subjectInvalid ("mission approver " ++ mission.approver ++
            " does not match delegator " ++ req.delegatorId ++
            ": a token's mission binding must be vouched by its own " ++
            "delegator"))
      | none => none

/-- The child of a request that forges nothing. -/
def mintFor (model : Model S P) (req : ExchangeRequest) (key : SigningKey) :
    Except IdentityError (Exchanged S P) := do
  match delegatorAttrs model.entities req.delegatorId with
  | none =>
      .error (.subjectInvalid ("delegator " ++ req.delegatorId ++
        " is not a principal in the graph"))
  | some (tenant, delExpiry, delScopes) =>
      let (scopes, expiry) := clampDelegation delScopes delExpiry
        req.requestedScopes req.requestedExpiry
      let token := issue J (mintedBadge req tenant scopes expiry) key
      let (next, verified) ←
        admitBadge engine J model token (J.verifyingKey key) req.now
      return { token, badge := verified, model := next }

def exchange (model : Model S P) (req : ExchangeRequest) (key : SigningKey)
    (allowed : List String) : Except IdentityError (Exchanged S P) := do
  if let some error := refuseForgery req allowed then .error error
  mintFor engine J model req key

end Exchange

/-! ## Missions -/

/-- What an approver authorizes; when it was approved is no part of what is
hashed. -/
structure Mission where
  approver : String
  agent : String
  approvedAt : UInt64
  description : String
  approvedTools : List String
  capabilities : List String
  expiry : UInt64
  deriving DecidableEq, Repr

def Mission.toDoc (mission : Mission) : Doc :=
  Serde.structDoc [("approver", Serde.stringDoc mission.approver),
    ("agent", Serde.stringDoc mission.agent),
    ("description", Serde.stringDoc mission.description),
    ("approved_tools", stringsDoc mission.approvedTools),
    ("capabilities", stringsDoc mission.capabilities),
    ("expiry", numberDoc mission.expiry)]

inductive MissionState where
  | active
  | terminated
  deriving DecidableEq, Repr

structure ApprovedMission where
  mission : Mission
  state : MissionState
  s256 : String
  blob : ByteText.Bytes

/-- The registered approval, where there is a registry, is this one and
live. -/
def refuseUnregistered (m : ApprovedMission)
    (registry : Option (String → MissionStatus)) : Option IdentityError :=
  match registry with
  | none => none
  | some status =>
      match status m.s256 with
      | .error error => some (.registry error)
      | .ok none =>
          some (.subjectInvalid ("mission reference " ++ m.s256 ++
            " names no registered approval"))
      | .ok (some entry) =>
          if entry.terminated then
            some (.subjectInvalid ("mission " ++ m.s256 ++
              " is terminated in the registry; it mints no further tokens"))
          else if entry.approver ≠ m.mission.approver then
            some (.subjectInvalid ("mission " ++ m.s256 ++
              " registered approver " ++ entry.approver ++
              " does not match " ++ m.mission.approver))
          else if entry.approvedTools ≠ m.mission.approvedTools ∨
              entry.expiry ≠ m.mission.expiry then
            some (.subjectInvalid ("mission " ++ m.s256 ++
              " differs from the registered approval in its tools or expiry"))
          else none

/-- What a Mission does not mint at all. -/
def refuseUnderMission (m : ApprovedMission) (subAgentId : String)
    (registry : Option (String → MissionStatus)) : Option IdentityError :=
  match reservedSubjectIdPrefix subAgentId with
  | some reserved =>
      some (.subjectInvalid ("sub_agent_id may not use the reserved `" ++
        reserved ++ "` identity-namespace prefix — " ++
        "that namespace is minted exclusively by federation/native-login " ++
        "or ID-JAG redemption; a Mission-grant delegation must not be " ++
        "able to forge an identity into it"))
  | none =>
      if m.state ≠ .active then
        some (.subjectInvalid
          "mission is terminated; it mints no further tokens")
      else refuseUnregistered m registry

/-- The exchange a Mission stands behind. -/
def missionRequest (m : ApprovedMission) (subAgentId : String)
    (requestedScopes : List String) (now : UInt64) : ExchangeRequest where
  delegatorId := m.mission.approver
  subAgentId := subAgentId
  requestedScopes := requestedScopes.filter
    fun scope => decide (scope ∈ m.mission.approvedTools)
  requestedExpiry := m.mission.expiry
  now := now
  mission := some ⟨m.mission.approver, m.s256⟩
  aud := none

section Missions

variable {S P E C : Type} (engine : Engine S P E C) (J : Jose)

def issueUnderMission (model : Model S P) (m : ApprovedMission)
    (subAgentId : String) (requestedScopes : List String) (now : UInt64)
    (key : SigningKey) (registry : Option (String → MissionStatus)) :
    Except IdentityError (Exchanged S P) := do
  if let some error := refuseUnderMission m subAgentId registry then
    .error error
  exchange engine J model (missionRequest m subAgentId requestedScopes now)
    key []

/-! ## Chains of mints -/

/-- A mint, plainly or under a Mission. -/
inductive Mint where
  | exchange (req : ExchangeRequest) (key : SigningKey)
      (allowed : List String)
  | underMission (m : ApprovedMission) (subAgentId : String)
      (requestedScopes : List String) (now : UInt64) (key : SigningKey)
      (registry : Option (String → MissionStatus))

def Mint.run (model : Model S P) :
    Mint → Except IdentityError (Exchanged S P)
  | .exchange req key allowed =>
      Identity.exchange engine J model req key allowed
  | .underMission m subAgentId requestedScopes now key registry =>
      issueUnderMission engine J model m subAgentId requestedScopes now key
        registry

/-- The model the next mint uses: the minted principal in it, or as it was. -/
def Mint.next (model : Model S P) (mint : Mint) : Model S P :=
  match mint.run engine J model with
  | .ok out => out.model
  | .error _ => model

def afterMints (model : Model S P) (mints : List Mint) : Model S P :=
  mints.foldl (Mint.next engine J) model

end Missions

end Identity

end Decern
