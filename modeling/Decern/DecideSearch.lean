import Decern.DecidePrepare
import Mathlib.Tactic

/-!
# Searches

The subjects, resources or actions a context permits.  A search puts every
candidate of its side to the kernel, under the context an evaluation prepares,
and is recorded once.
-/

namespace Decern.Decide

open Serde (Map Value)

/-! ## The request -/

/-- A party of a search; the one that is searched for has no id. -/
structure SearchParty where
  ty : String
  id : Option String := none
  properties : Option Map := none

structure Page where
  token : Option String := none

structure SearchReq where
  subject : SearchParty
  action : Option Action := none
  resource : SearchParty
  context : Option Map := none
  page : Option Page := none

/-- The side a search resolves. -/
inductive For where
  | subject
  | resource
  | action
  deriving DecidableEq, Repr

namespace For

def name : For → String
  | .subject => "subject"
  | .resource => "resource"
  | .action => "action"

def recordedAs : For → String
  | .subject => "Search.Subject"
  | .resource => "Search.Resource"
  | .action => "Search.Action"

def needs (what : For) (present : Bool) (field : String) :
    Except Refusal Unit :=
  if present then .ok ()
  else .error (.invalidRequest
    (field ++ " is required for a " ++ what.name ++ " search"))

end For

/-! ## What a search requires -/

def SearchParty.hasId (party : SearchParty) : Bool :=
  party.id.any fun id => id != ""

def SearchReq.names (req : SearchReq) : List (String × String) :=
  [("subject.type", req.subject.ty), ("subject.id", req.subject.id.getD ""),
    ("resource.type", req.resource.ty),
    ("resource.id", req.resource.id.getD ""),
    ("action.name", (req.action.map Action.name).getD "")]

/-- The input parties carry an id, an action stands where one is searched
under and nowhere else, and no page was ever issued. -/
def SearchReq.checked (req : SearchReq) (what : For) :
    Except Refusal Unit := do
  if let some refusal := nameTooLarge req.names then .error refusal
  match what with
  | .subject =>
      what.needs req.resource.hasId "resource.id"
      what.needs req.action.isSome "action"
  | .resource =>
      what.needs req.subject.hasId "subject.id"
      what.needs req.action.isSome "action"
  | .action =>
      what.needs req.subject.hasId "subject.id"
      what.needs req.resource.hasId "resource.id"
      if req.action.isSome then
        .error (.invalidRequest ("action is omitted from an action search; " ++
          "the actions are what it resolves"))
  if (req.page.bind Page.token).any fun token => token != "" then
    .error (.invalidRequest ("page.token: this server issued no token; it " ++
      "returns every result in one page"))

/-- The searched side's id is ignored. -/
def SearchReq.unnamed (req : SearchReq) : For → SearchReq
  | .subject => { req with subject := { req.subject with id := none } }
  | .resource => { req with resource := { req.resource with id := none } }
  | .action => req

def SearchReq.facts (req : SearchReq) : Facts where
  subjectId := req.subject.id
  describes := describing req.subject.properties ||
    describing req.resource.properties ||
    describing (req.action.bind Action.properties)
  decisionSubject := req.context.bind fun context =>
    namedDecisionSubject (context.get "decision_subject")

/-- Whoever searches for subjects names everyone. -/
def admitSearch (caller : Option Authenticated) (req : SearchReq)
    (what : For) : Option Refusal :=
  (if what = .subject then refuseUnlessPep caller "search for subjects"
    else none) <|> admitNamed caller req.facts

def SearchReq.namesAMission (req : SearchReq) : Bool :=
  (req.context.bind fun context => context.get "mission").any
    fun mission => !mission.isNull

def searchUnderMission : Refusal :=
  .unprocessable "search_under_mission" ("a search does not run under a " ++
    "Mission; it enumerates decisions rather than making one — evaluate " ++
    "the decision instead")

section Search

variable {S P E C : Type} (host : Host S P E C)

/-! ## The candidates -/

/-- A decision would refuse the action for want of a Mission. -/
def refusedWithoutAMission (subjectId action : String) (ctx : Value)
    (now : UInt64) : Bool :=
  match bindMission host.missions host.dir false subjectId action ctx now with
  | .deny _ => true
  | _ => false

/-- The input is in the directory, and every type is the kernel's own. -/
def known (what : For) (subject resource : EntityRef) : Bool :=
  let principal := decide (subject.ty = "Principal")
  let owned := decide (resource.ty = "Resource")
  let subjectKnown := (host.dir.principals[subject.id]?).isSome
  let resourceKnown := (host.dir.resources[resource.id]?).isSome
  match what with
  | .subject => principal && resourceKnown
  | .resource => owned && subjectKnown
  | .action => principal && owned && subjectKnown && resourceKnown

/-- The candidates that are allowed, and the context the record carries. -/
def enumerate (what : For) (subject resource : EntityRef)
    (action : Option String) (ctx : Value) (now : UInt64) :
    List String × Value :=
  match what with
  | .action =>
      let found :=
        if known host what subject resource then
          (host.kernel.searchActions host.engine subject resource ctx).filter
            fun name => !refusedWithoutAMission host subject.id name ctx now
        else []
      (found, host.kernel.pruneToAnyDeclared ctx)
  | _ =>
      let action := action.getD ""
      let ctx := host.kernel.pruneUndeclaredContext action ctx
      if refusedWithoutAMission host subject.id action ctx now then
        ([], stripClientApprovalFlags ctx)
      else if !known host what subject resource then ([], ctx)
      else
        let found := match what with
          | .subject =>
              host.kernel.searchSubjects host.engine action resource ctx
          | _ => host.kernel.searchResources host.engine subject action ctx
        (found.map EntityRef.id, ctx)

/-! ## The search -/

def shardForTenant (sharded : Bool) (tenant : Option String) : RecordShard :=
  if sharded then
    some (match tenant.filter fun tenant => tenant != "" with
      | some tenant =>
          if tenant = Graph.reservedTenant then
            .error ("the resource's tenant collides with the reserved " ++
              "shard \"" ++ Graph.reservedTenant ++ "\"")
          else .ok tenant
      | none => .ok Graph.reservedTenant)
  else none

def maxRecordedResults : ℕ := 1000

/-- What a search found, and the record of it. -/
structure Searched where
  ids : List String
  results : List Value
  entry : Entry
  shard : RecordShard

def SearchReq.result (req : SearchReq) (what : For) (id : String) : Value :=
  match what with
  | .subject => .object [("type", .string req.subject.ty), ("id", .string id)]
  | .resource =>
      .object [("type", .string req.resource.ty), ("id", .string id)]
  | .action => .object [("name", .string id)]

def partyValue (party : EntityRef) : Value :=
  .object [("type", .string party.ty), ("id", .string party.id)]

def searchParametersOf (what : For) (subject resource : EntityRef)
    (action : Option String) (ctx : Value) : Value :=
  .object [("search", .string what.name), ("subject", partyValue subject),
    ("action", optionValue (action.map Value.string)),
    ("resource", partyValue resource), ("context", ctx)]

/-- The search as its record names it; the count is exact. -/
def foundValue (what : For) (action : Option String) (ids : List String) :
    Value :=
  .object [("for", .string what.name),
    ("action", optionValue (action.map Value.string)),
    ("count", .number (.posInt (UInt64.ofNat ids.length))),
    ("results", .array ((ids.take maxRecordedResults).map Value.string))]

/-- One search, up to the record it is served after. -/
def search (caller : Option Authenticated) (req : SearchReq) (what : For) :
    Except Refusal Searched := do
  let req := req.unnamed what
  if let some refusal := admitSearch caller req what then .error refusal
  if host.requireMission || req.namesAMission then .error searchUnderMission
  let (ctx, now, assertedBy) ← prepareContext host caller
    (req.context.getD []) (described req.subject.properties)
    (described req.resource.properties)
    (described (req.action.bind Action.properties))
  let ctx := (ctx.remove "decision_subject").remove "subject_side_challenge"
  let subject : EntityRef :=
    ⟨host.modelType req.subject.ty, req.subject.id.getD ""⟩
  let resource : EntityRef :=
    ⟨host.modelType req.resource.ty, req.resource.id.getD ""⟩
  let action := req.action.map Action.name
  let (ids, ctx) := enumerate host what subject resource action ctx now
  let shard := match what with
    | .subject => shardForTenant host.sharded
        ((host.dir.resources[resource.id]?).map Graph.ResourceRec.tenant)
    | _ => shardFor host.sharded host.dir subject.id
  return {
    ids
    results := ids.map (req.result what)
    entry := {
      tsMs := UInt64.ofNat (min (now.toNat * 1000) (UInt64.size - 1))
      subjectType := subject.ty
      subjectId := subject.id
      action := what.recordedAs
      resourceType := resource.ty
      resourceId := resource.id
      context := ctx.insert "search" (foundValue what action ids)
      decision := true
      sponsor := req.subject.id.bind (resolveSponsor host.dir)
      assertedBy
      digests := [("authority", host.authorityDigest),
        ("parameters", host.digest
          (searchParametersOf what subject resource action ctx))] }
    shard }

/-- A request that lacks what its search requires is not searched. -/
def searched (caller : Option Authenticated) (req : SearchReq) (what : For) :
    Except Refusal Searched := do
  req.checked what
  search host caller req what

end Search

end Decern.Decide
