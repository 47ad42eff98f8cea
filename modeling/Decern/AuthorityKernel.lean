import Decern.CedarPolicy
import Decern.ContextShape
import Decern.GraphParse
import Decern.SerdeText
import Mathlib.Tactic

/-!
# The authority kernel

Loading a model and deciding a request against it.  What the Cedar engine does
is taken from it: which types, contexts and requests its schema admits, the
store it reads entities into, and its authorizer.
-/

namespace Decern

open Serde (Value Map)

structure EntityRef where
  ty : String
  id : String
  deriving DecidableEq, Repr

structure CheckResponse where
  decision : Bool
  reasons : List String
  errors : List String
  deriving DecidableEq, Repr

def CheckResponse.deny (reason : String) : CheckResponse :=
  { decision := false, reasons := [], errors := [reason] }

inductive KernelError where
  | schema (message : String)
  | validation (message : String)
  | graph (message : String)
  | entities (message : String)
  deriving DecidableEq, Repr

/-- The engine a kernel decides with. -/
structure Engine (Schema Policies Entities Context : Type) where
  floats : Serde.FloatText
  contextShape : Schema → Except String (StringMap Declared)
  validationErrors : Schema → Policies → List String
  typeName : String → Except String String
  readEntities : Schema → Value → Except String Entities
  readContext : Schema → Cedar.EntityUid → Value → Except String Context
  validateRequest : Schema → Cedar.EntityUid → Cedar.EntityUid →
    Cedar.EntityUid → Context → Except String Unit
  isAuthorized : Cedar.EntityUid → Cedar.EntityUid → Cedar.EntityUid →
    Context → Policies → Entities → CheckResponse

structure Model (Schema Policies : Type) where
  schema : Schema
  policies : Policies
  entities : Value

structure Kernel (Schema Policies Entities : Type) where
  schema : Schema
  contextShape : StringMap Declared
  policies : Policies
  entities : Entities
  directory : Graph.Directory

/-! ## Derived attributes -/

def principalRef (id : String) : Value :=
  .object [("__entity", .object
    [("type", .string "Principal"), ("id", .string id)])]

/-- A principal with its ancestors and its effective revocation written in;
any other entity as it is. -/
def withDerived (dir : Graph.Directory) (entity : Value) : Value :=
  match entity with
  | .object members =>
      if (Graph.uidOf entity).1 = "Principal" then
        match Graph.attrsOf entity with
        | some attrs =>
            let id := (Graph.uidOf entity).2
            let derived := Map.insert (Map.insert attrs "ancestors"
              (.array ((dir.ancestorsOf id).map principalRef)))
              "revoked" (.bool (dir.revoked id))
            .object (Map.insert members "attrs" (.object derived))
        | none => entity
      else entity
  | _ => entity

def injectDerived (entities : Value) (dir : Graph.Directory) : Value :=
  .array ((entities.asArray.getD []).map (withDerived dir))

namespace Kernel

variable {S P E C : Type} (engine : Engine S P E C)

/-! ## Loading -/

/-- Nothing loads unless the schema reads, the policies are typed by it, the
graph is one that delegates within bounds and the entities conform. -/
def new (model : Model S P) : Except KernelError (Kernel S P E) := do
  let contextShape ←
    (engine.contextShape model.schema).mapError KernelError.schema
  let errors := engine.validationErrors model.schema model.policies
  if !errors.isEmpty then
    .error (.validation (String.intercalate "\n" errors))
  else
    let directory ← (Graph.Directory.parse model.entities).mapError
      fun violations => KernelError.graph (String.intercalate "\n" violations)
    let violations := directory.validate
    if !violations.isEmpty then
      .error (.graph (String.intercalate "\n" violations))
    else
      let entities ← (engine.readEntities model.schema
        (injectDerived model.entities directory)).mapError
          KernelError.entities
      return { schema := model.schema, contextShape,
               policies := model.policies, entities, directory }

/-! ## Deciding -/

def uid (ty id : String) : Except String Cedar.EntityUid :=
  (engine.typeName ty).map fun name => ⟨name, id⟩

/-- The clock a context carries: epoch seconds in the range of a Long. -/
def clockOf (context : Value) : Except String UInt64 :=
  match context.get "now" with
  | none =>
      .error "context.now is required (the kernel never reads a clock)"
  | some value =>
      let malformed := "context.now must be a non-negative integer within " ++
        "Long range (epoch seconds), got " ++
        String.ofList (JsonText.print (value.toDoc engine.floats))
      match value.asU64 with
      | some now => if now.toNat < 2 ^ 63 then .ok now else .error malformed
      | none => .error malformed

variable (kernel : Kernel S P E)

/-- The response, or the one cause of a Deny before anything is evaluated. -/
def checked (subject : EntityRef) (action : String) (resource : EntityRef)
    (context : Value) : Except String CheckResponse := do
  let principal ← (uid engine subject.ty subject.id).mapError
    fun error => "bad subject: " ++ error
  let actionUid ← (uid engine "Action" action).mapError
    fun error => "bad action: " ++ error
  let resourceUid ← (uid engine resource.ty resource.id).mapError
    fun error => "bad resource: " ++ error
  if context.asObject.isNone then .error "context must be a JSON object"
  else
    let _ ← clockOf engine context
    let ctx ← (engine.readContext kernel.schema actionUid context).mapError
      fun error => "bad context: " ++ error
    let _ ← (engine.validateRequest kernel.schema principal actionUid
      resourceUid ctx).mapError fun error => "bad request: " ++ error
    return engine.isAuthorized principal actionUid resourceUid ctx
      kernel.policies kernel.entities

def check (subject : EntityRef) (action : String) (resource : EntityRef)
    (context : Value) : CheckResponse :=
  match kernel.checked engine subject action resource context with
  | .ok response => response
  | .error reason => .deny reason

/-- A context without what the action does not declare. -/
def pruneUndeclaredContext (action : String) (context : Value) : Value :=
  ((kernel.contextShape[action]?).getD Declared.onlyNow).prune context

/-- What any action declares. -/
def contextUnion : Declared :=
  kernel.contextShape.values.foldl Declared.union (.record [])

/-- A context without what no action declares. -/
def pruneToAnyDeclared (context : Value) : Value :=
  kernel.contextUnion.prune context

/-! ## Searching -/

/-- The principals that are allowed the action; the context is pruned for
it already. -/
def searchSubjects (action : String) (resource : EntityRef)
    (context : Value) : List EntityRef :=
  (kernel.directory.principals.keys.filter fun id =>
    (kernel.check engine ⟨"Principal", id⟩ action resource context).decision)
      |>.map fun id => ⟨"Principal", id⟩

def searchResources (subject : EntityRef) (action : String)
    (context : Value) : List EntityRef :=
  (kernel.directory.resources.keys.filter fun id =>
    (kernel.check engine subject action ⟨"Resource", id⟩ context).decision)
      |>.map fun id => ⟨"Resource", id⟩

/-- The declared actions that are allowed, each under its own context. -/
def searchActions (subject resource : EntityRef) (context : Value) :
    List String :=
  kernel.contextShape.keys.filter fun action =>
    (kernel.check engine subject action resource
      (kernel.pruneUndeclaredContext action context)).decision

/-! ## What a loaded kernel is -/

variable {engine} {kernel}

theorem mapError_eq_ok {ε ε' α : Type} {result : Except ε α} {f : ε → ε'}
    {value : α} : result.mapError f = .ok value ↔ result = .ok value := by
  cases result <;> simp [Except.mapError]

/-- A kernel loads from a validated graph. -/
structure Loaded (engine : Engine S P E C) (model : Model S P)
    (kernel : Kernel S P E) : Prop where
  schema : kernel.schema = model.schema
  policies : kernel.policies = model.policies
  contextShape : engine.contextShape model.schema = .ok kernel.contextShape
  typed : engine.validationErrors model.schema model.policies = []
  parsed : Graph.Directory.parse model.entities = .ok kernel.directory
  valid : kernel.directory.validate = []
  entities : engine.readEntities model.schema
    (injectDerived model.entities kernel.directory) = .ok kernel.entities

theorem new_eq_ok_iff {model : Model S P} :
    new engine model = .ok kernel ↔ Loaded engine model kernel := by
  constructor
  · intro hnew
    obtain ⟨shape, hshape, hnew⟩ := Serde.bind_eq_ok.mp hnew
    rw [mapError_eq_ok] at hshape
    dsimp only at hnew
    split at hnew
    case isTrue => cases hnew
    case isFalse htyped =>
      obtain ⟨directory, hparse, hnew⟩ := Serde.bind_eq_ok.mp hnew
      rw [mapError_eq_ok] at hparse
      split at hnew
      case isTrue => cases hnew
      case isFalse hvalid =>
        obtain ⟨entities, hread, hnew⟩ := Serde.bind_eq_ok.mp hnew
        rw [mapError_eq_ok] at hread
        cases hnew
        exact ⟨rfl, rfl, hshape, by simpa using htyped, hparse,
          by simpa using hvalid, hread⟩
  · intro hloaded
    obtain ⟨schema, shape, policies, entities, directory⟩ := kernel
    obtain ⟨hschema, hpolicies, hshape, htyped, hparse, hvalid, hread⟩ :=
      hloaded
    simp only at hschema hpolicies hshape hparse hvalid hread
    subst hschema hpolicies
    simp [new, hshape, htyped, hparse, hvalid, hread, Except.mapError, bind,
      Except.bind, pure, Except.pure]

/-- An Allow is the authorizer's, over a request that reads. -/
structure Asked (engine : Engine S P E C) (kernel : Kernel S P E)
    (subject : EntityRef) (action : String) (resource : EntityRef)
    (context : Value) (response : CheckResponse) (principal actionUid
      resourceUid : Cedar.EntityUid) (ctx : C) (now : UInt64) : Prop where
  subjectUid : uid engine subject.ty subject.id = .ok principal
  actionRead : uid engine "Action" action = .ok actionUid
  resourceRead : uid engine resource.ty resource.id = .ok resourceUid
  clock : clockOf engine context = .ok now
  contextRead : engine.readContext kernel.schema actionUid context = .ok ctx
  request : engine.validateRequest kernel.schema principal actionUid
    resourceUid ctx = .ok ()
  answer : response = engine.isAuthorized principal actionUid resourceUid
    ctx kernel.policies kernel.entities

theorem asked_of_checked {subject resource : EntityRef} {action : String}
    {context : Value} {response : CheckResponse}
    (hchecked : kernel.checked engine subject action resource context =
      .ok response) :
    ∃ principal actionUid resourceUid ctx now,
      Asked engine kernel subject action resource context response principal
        actionUid resourceUid ctx now := by
  obtain ⟨principal, hprincipal, hchecked⟩ := Serde.bind_eq_ok.mp hchecked
  obtain ⟨actionUid, haction, hchecked⟩ := Serde.bind_eq_ok.mp hchecked
  obtain ⟨resourceUid, hresource, hchecked⟩ := Serde.bind_eq_ok.mp hchecked
  split at hchecked
  case isTrue => cases hchecked
  case isFalse =>
    obtain ⟨now, hnow, hchecked⟩ := Serde.bind_eq_ok.mp hchecked
    obtain ⟨ctx, hctx, hchecked⟩ := Serde.bind_eq_ok.mp hchecked
    obtain ⟨_, hrequest, hchecked⟩ := Serde.bind_eq_ok.mp hchecked
    rw [mapError_eq_ok] at hprincipal haction hresource hctx hrequest
    exact ⟨principal, actionUid, resourceUid, ctx, now, hprincipal, haction,
      hresource, hnow, hctx, hrequest, (Except.ok.inj hchecked).symm⟩

theorem asked_of_allow {subject resource : EntityRef} {action : String}
    {context : Value}
    (hallow : (kernel.check engine subject action resource context).decision =
      true) :
    ∃ response principal actionUid resourceUid ctx now,
      response.decision = true ∧ Asked engine kernel subject action resource
        context response principal actionUid resourceUid ctx now := by
  unfold check at hallow
  split at hallow
  case h_1 response hchecked =>
    exact ⟨response, by
      obtain ⟨principal, actionUid, resourceUid, ctx, now, hasked⟩ :=
        asked_of_checked hchecked
      exact ⟨principal, actionUid, resourceUid, ctx, now, hallow, hasked⟩⟩
  case h_2 => simp [CheckResponse.deny] at hallow

theorem clockOf_eq_ok {context : Value} {now : UInt64} :
    clockOf engine context = .ok now ↔
      context.get "now" = some (.number (.posInt now)) ∧
        now.toNat < 2 ^ 63 := by
  unfold clockOf
  cases hnow : context.get "now" with
  | none => simp
  | some value =>
      cases value with
      | number number =>
          cases number with
          | posInt found =>
              simp only [Value.asU64]
              split
              case isTrue hrange =>
                simp only [Except.ok.injEq, Option.some.injEq,
                  Value.number.injEq, Serde.Number.posInt.injEq]
                constructor
                · intro heq
                  exact ⟨heq, heq ▸ hrange⟩
                · exact And.left
              case isFalse hrange =>
                simp only [reduceCtorEq, Option.some.injEq,
                  Value.number.injEq, Serde.Number.posInt.injEq, false_iff]
                intro hboth
                exact hrange (hboth.1 ▸ hboth.2)
          | negInt found => simp [Value.asU64]
          | float bits => simp [Value.asU64]
      | null => simp [Value.asU64]
      | bool flag => simp [Value.asU64]
      | string text => simp [Value.asU64]
      | array items => simp [Value.asU64]
      | object members => simp [Value.asU64]

end Kernel

end Decern
