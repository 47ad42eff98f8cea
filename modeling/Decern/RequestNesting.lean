import Decern.BatchEvaluation
import Decern.ContextRemoval
import Decern.MissionDecisions
import Decern.SerdeNesting
import Mathlib.Tactic

/-!
# How deep a recorded context nests

A body nested to the parser's limit is refused, and a request's context stands
one level into it.  What a decision records of the context is no deeper: its
members go, come from elsewhere in the body or are the server's own, and
pruning only takes out more.
-/

namespace Decern

open Serde (Map SerdeError Source Value docSource readAnyValue readOption
  readString readVec valueSource)

/-! ## Pruning -/

theorem Declared.nesting_prune_le (shape : Declared) (value : Value) :
    (shape.prune value).nesting ≤ value.nesting := by
  induction shape using Declared.induction generalizing value with
  | unread => rw [Declared.prune_unread]
  | record attrs ih =>
      cases value with
      | object members =>
          rw [Declared.prune, Value.nesting, Value.nesting,
            Nat.add_le_add_iff_left, Value.nestingMembers_le_iff]
          have hmembers := (Value.nestingMembers_le_iff members _).mp le_rfl
          intro member hmember
          rcases List.mem_filterMap.mp hmember with ⟨found, hfound, hpruned⟩
          rcases Option.map_eq_some_iff.mp hpruned with ⟨kept, hkept, rfl⟩
          rw [Declared.pruneMember_eq] at hkept
          rcases Option.map_eq_some_iff.mp hkept with ⟨child, hchild, rfl⟩
          exact (ih _ (Declared.mem_of_attr hchild) found.2).trans
            (hmembers found hfound)
      | _ => rw [Declared.prune_of_asObject_eq_none rfl]

/-! ## Requests as they are read -/

namespace Decide

/-- What a request says of its context and its parties nests at most so
deep. -/
structure DecideReq.Within (bound : ℕ) (req : DecideReq) : Prop where
  context : Value.Within bound (req.context.getD [])
  subject : ∀ properties, req.subject.properties = some properties →
    (Value.object properties).nesting ≤ bound
  resource : ∀ properties, req.resource.properties = some properties →
    (Value.object properties).nesting ≤ bound
  action : ∀ properties, req.action.properties = some properties →
    (Value.object properties).nesting ≤ bound

section Readers

variable {δ : Type} {source : Source δ} {tree : δ} {depth bound : ℕ}

/-- A map a tree holds, read with `depth` brackets open around it. -/
def ReadWithin (source : Source δ) (depth : ℕ) (tree : δ) (members : Map) :
    Prop :=
  ∃ child, (source.shape tree).Holds child ∧
    source.value depth child = some (.object members)

theorem properties_of_readRef {ref : Ref}
    (hread : readRef source depth tree = .ok ref) {properties : Map}
    (hproperties : ref.properties = some properties) :
    ReadWithin source (depth + 1) tree properties := by
  unfold readRef at hread
  rcases Serde.bind_eq_ok.mp hread with ⟨_, _, hread⟩
  rcases Serde.bind_eq_ok.mp hread with ⟨ty, _, hread⟩
  rcases Serde.bind_eq_ok.mp hread with ⟨id, _, hread⟩
  rcases Serde.bind_eq_ok.mp hread with ⟨found, hfound, hread⟩
  cases hread
  simp only at hproperties
  rw [hproperties] at hfound
  rcases Serde.defaulted_readOption_eq_some hfound with
    ⟨child, hchild, hmap⟩
  exact ⟨child, hchild, Serde.value_of_readMap hmap⟩

theorem properties_of_readAction {action : Action}
    (hread : readAction source depth tree = .ok action) {properties : Map}
    (hproperties : action.properties = some properties) :
    ReadWithin source (depth + 1) tree properties := by
  unfold readAction at hread
  rcases Serde.bind_eq_ok.mp hread with ⟨_, _, hread⟩
  rcases Serde.bind_eq_ok.mp hread with ⟨name, _, hread⟩
  rcases Serde.bind_eq_ok.mp hread with ⟨found, hfound, hread⟩
  cases hread
  simp only at hproperties
  rw [hproperties] at hfound
  rcases Serde.defaulted_readOption_eq_some hfound with
    ⟨child, hchild, hmap⟩
  exact ⟨child, hchild, Serde.value_of_readMap hmap⟩

/-- A request is as deep as a source lets the context of a tree and the
properties of the parties it holds be. -/
theorem within_of_readDecideReq {req : DecideReq}
    (hread : readDecideReq source tree = .ok req)
    (hcontext : ∀ members, ReadWithin source 1 tree members →
      (Value.object members).nesting ≤ 1 + bound)
    (hproperties : ∀ party members, (source.shape tree).Holds party →
      ReadWithin source 2 party members →
      (Value.object members).nesting ≤ bound) :
    req.Within bound := by
  unfold readDecideReq at hread
  rcases Serde.bind_eq_ok.mp hread with ⟨_, _, hread⟩
  rcases Serde.bind_eq_ok.mp hread with ⟨subject, hsubject, hread⟩
  rcases Serde.bind_eq_ok.mp hread with ⟨action, haction, hread⟩
  rcases Serde.bind_eq_ok.mp hread with ⟨resource, hresource, hread⟩
  rcases Serde.bind_eq_ok.mp hread with ⟨context, hfound, hread⟩
  cases hread
  rcases Serde.required_eq_ok hsubject with ⟨s, hs, hsubject⟩
  rcases Serde.required_eq_ok haction with ⟨a, ha, haction⟩
  rcases Serde.required_eq_ok hresource with ⟨r, hr, hresource⟩
  refine ⟨?_, ?_, ?_, ?_⟩
  · cases context with
    | none => simp [Value.Within]
    | some members =>
        rcases Serde.defaulted_readOption_eq_some hfound with
          ⟨child, hchild, hmap⟩
        exact (Value.nesting_object_le_iff members bound).mp
          (hcontext members ⟨child, hchild, Serde.value_of_readMap hmap⟩)
  · exact fun properties hsome =>
      hproperties s properties hs (properties_of_readRef hsubject hsome)
  · exact fun properties hsome =>
      hproperties r properties hr (properties_of_readRef hresource hsome)
  · exact fun properties hsome =>
      hproperties a properties ha (properties_of_readAction haction hsome)

end Readers

/-- `serde_json::from_slice::<DecideReq>`, of a body that is text. -/
def parseDecideReq (floats : Serde.FloatText) (body : String) :
    Except SerdeError DecideReq :=
  match JsonText.parse body.toList with
  | none => .error .unreadable
  | some doc => readDecideReq (docSource floats) doc

theorem parseDecideReq_of_parse {floats : Serde.FloatText} {body : String}
    {doc : JsonText.Doc} (hdoc : JsonText.parse body.toList = some doc) :
    parseDecideReq floats body = readDecideReq (docSource floats) doc := by
  rw [parseDecideReq, hdoc]

/-- The parser leaves a context 126 levels, one of them its own. -/
theorem within_of_parse {floats : Serde.FloatText} {body : String}
    {req : DecideReq} (hparse : parseDecideReq floats body = .ok req) :
    req.Within 125 := by
  unfold parseDecideReq at hparse
  split at hparse
  case h_1 => cases hparse
  case h_2 doc _ =>
    refine within_of_readDecideReq hparse ?_ ?_
    · rintro members ⟨child, _, hvalue⟩
      have hlimit := Serde.nesting_lt_of_readValue floats hvalue
      unfold Serde.recursionLimit at hlimit
      omega
    · rintro party members _ ⟨child, _, hvalue⟩
      have hlimit := Serde.nesting_lt_of_readValue floats hvalue
      unfold Serde.recursionLimit at hlimit
      omega

/-! ## What is prepared -/

section Preparing

variable {S P E C : Type} {host : Host S P E C}
  {caller : Option Authenticated} {req : DecideReq} {p : Prepared}
  {bound : ℕ}

theorem within_describe {context : Map} (hcontext : Value.Within bound context)
    (key : String) {properties : Option Map}
    (hproperties : ∀ members, properties = some members →
      (Value.object members).nesting ≤ bound) :
    Value.Within bound (describe context key (described properties)) := by
  unfold describe
  split
  case h_1 members hsome =>
    have hgiven : properties = some members := by
      rw [described, Option.filter_eq_some_iff] at hsome
      exact hsome.1
    exact (hcontext.remove key).insert key (hproperties members hgiven)
  case h_2 => exact hcontext.remove key

theorem nesting_merged_le (hreq : req.Within bound) (now : UInt64) :
    (req.merged now).nesting ≤ 1 + bound := by
  unfold DecideReq.merged kernelContext
  rw [Value.nesting_object_le_iff]
  have hclock : Value.Within bound
      (Map.insert (req.context.getD []) "now" (.number (.posInt now))) :=
    hreq.context.insert "now" (Nat.zero_le _)
  exact within_describe (within_describe (within_describe
    (hclock.remove "asserted_by") "subject" hreq.subject) "resource"
      hreq.resource) "action" hreq.action

theorem nesting_applyBind_le {ctx : Value}
    (hctx : ctx.nesting ≤ 1 + bound) (bind : MissionBind) (action : String) :
    (applyBind bind ctx action).2.2.nesting ≤ 1 + bound := by
  have hstripped : (stripClientApprovalFlags ctx).nesting ≤ 1 + bound :=
    (Value.nesting_remove_le _ _).trans
      ((Value.nesting_remove_le _ _).trans hctx)
  cases bind with
  | none => exact hctx
  | ok reference =>
      simp only [applyBind, applyMissionContext]
      split
      case isTrue =>
        exact Value.nesting_insert_le hstripped (Nat.zero_le _) _
      case isFalse => exact hstripped
  | deny errors => exact hstripped

theorem nesting_prepared_le (hreq : req.Within bound)
    (hprepares : Prepares host req p) : p.ctx.nesting ≤ 1 + bound := by
  rw [hprepares.ctx]
  have hbound := nesting_applyBind_le
    (nesting_merged_le hreq p.now) (host.bindOf req p.now) req.action.name
  refine (Declared.nesting_prune_le _ _).trans ?_
  exact (Value.nesting_remove_le _ _).trans
    ((Value.nesting_remove_le _ _).trans
      ((Value.nesting_remove_le _ _).trans hbound))

theorem prepare_of_evaluateOne {evaluated : Evaluated}
    (hevaluated : evaluateOne host caller req = .ok evaluated) :
    ∃ p challenge, prepare host caller req = .ok p ∧
      evaluated.entry = (recordOf host p (decidePrepared host p)
        challenge).1 := by
  unfold evaluateOne at hevaluated
  rcases Serde.bind_eq_ok.mp hevaluated with ⟨p, hprepare, hevaluated⟩
  rcases Serde.bind_eq_ok.mp hevaluated with ⟨challenge, _, hevaluated⟩
  cases hevaluated
  exact ⟨p, challenge, hprepare, rfl⟩

/-- The record's context is as deep as the request's, or holds the Mission it
named. -/
theorem nesting_evaluated_le (hreq : req.Within bound) (hpos : 1 ≤ bound)
    {evaluated : Evaluated}
    (hevaluated : evaluateOne host caller req = .ok evaluated) :
    evaluated.entry.context.nesting ≤ 1 + bound := by
  rcases prepare_of_evaluateOne hevaluated with
    ⟨p, challenge, hprepare, hentry⟩
  have hprepares := prepares_of_ok hprepare
  have hctx := nesting_prepared_le hreq hprepares
  rw [hentry]
  unfold recordOf
  split
  case h_1 named hnamed =>
    rw [hprepares.named] at hnamed
    rcases Option.map_eq_some_iff.mp hnamed with ⟨mission, _, rfl⟩
    have hflat : (namedForRecord mission).nesting = 1 := rfl
    exact Value.nesting_insert_le hctx (hflat.le.trans hpos) "mission"
  case h_2 => exact hctx

end Preparing

end Decide

/-! ## Exchanges as they are read -/

namespace Batch

open Decide (Authenticated DecideReq Evaluated Host admitNamed admitReq
  evaluateOne parseDecideReq readDecideReq)

section Readers

variable {δ : Type} (source : Source δ)

def readOptions (tree : δ) : Except SerdeError Options := do
  let shape := source.shape tree
  Serde.expectStruct 1 shape
  let evaluationsSemantic ← Serde.defaulted shape 0 "evaluations_semantic"
    none (readOption source (readString source))
  return { evaluationsSemantic }

def readBatchReq (tree : δ) : Except SerdeError BatchReq := do
  let shape := source.shape tree
  Serde.expectStruct 6 shape
  let value := readOption source (readAnyValue source 1)
  let subject ← Serde.defaulted shape 0 "subject" none value
  let action ← Serde.defaulted shape 1 "action" none value
  let resource ← Serde.defaulted shape 2 "resource" none value
  let context ← Serde.defaulted shape 3 "context" none value
  let evaluations ← Serde.defaulted shape 4 "evaluations" none
    (readOption source (readVec source (readAnyValue source 2)))
  let options ← Serde.defaulted shape 5 "options" none
    (readOption source (readOptions source))
  return { subject, action, resource, context, evaluations, options }

end Readers

/-- `serde_json::from_slice::<BatchReq>`, of a body that is text. -/
def parseBatchReq (floats : Serde.FloatText) (body : String) :
    Except SerdeError BatchReq :=
  match JsonText.parse body.toList with
  | none => .error .unreadable
  | some doc => readBatchReq (docSource floats) doc

/-- The defaults and the items of an exchange nest at most so deep. -/
structure BatchReq.Within (bound : ℕ) (top : BatchReq) : Prop where
  default : ∀ key value, top.defaultFor key = some value →
    value.nesting ≤ bound
  item : ∀ item ∈ top.evaluations.getD [], item.nesting ≤ bound

theorem within_of_parseBatchReq {floats : Serde.FloatText} {body : String}
    {top : BatchReq} (hparse : parseBatchReq floats body = .ok top) :
    top.Within 126 := by
  unfold parseBatchReq at hparse
  split at hparse
  case h_1 => cases hparse
  case h_2 doc _ =>
    unfold readBatchReq at hparse
    rcases Serde.bind_eq_ok.mp hparse with ⟨_, _, hparse⟩
    rcases Serde.bind_eq_ok.mp hparse with ⟨subject, hsubject, hparse⟩
    rcases Serde.bind_eq_ok.mp hparse with ⟨action, haction, hparse⟩
    rcases Serde.bind_eq_ok.mp hparse with ⟨resource, hresource, hparse⟩
    rcases Serde.bind_eq_ok.mp hparse with ⟨context, hcontext, hparse⟩
    rcases Serde.bind_eq_ok.mp hparse with ⟨items, hitems, hparse⟩
    rcases Serde.bind_eq_ok.mp hparse with ⟨options, _, hparse⟩
    cases hparse
    have hfield : ∀ {index : ℕ} {name : String} {found : Option Value},
        Serde.defaulted ((docSource floats).shape doc) index name none
          (readOption (docSource floats) (readAnyValue (docSource floats) 1)) =
            .ok found →
        ∀ value, found = some value → value.nesting ≤ 126 := by
      rintro index name found hfound value rfl
      rcases Serde.defaulted_readOption_eq_some hfound with
        ⟨child, _, hvalue⟩
      have hlimit := Serde.nesting_lt_of_readValue floats
        (Serde.value_of_readAnyValue hvalue)
      unfold Serde.recursionLimit at hlimit
      omega
    constructor
    · intro key value hdefault
      unfold BatchReq.defaultFor at hdefault
      split_ifs at hdefault
      · exact hfield hsubject value hdefault
      · exact hfield haction value hdefault
      · exact hfield hresource value hdefault
      · exact hfield hcontext value hdefault
    · cases items with
      | none => simp
      | some items =>
          rcases Serde.defaulted_readOption_eq_some hitems with
            ⟨child, _, hvec⟩
          intro item hitem
          rcases Serde.exists_of_mem_readVec hvec item hitem with
            ⟨found, hvalue⟩
          have hlimit := Serde.nesting_lt_of_readValue floats
            (Serde.value_of_readAnyValue hvalue)
          unfold Serde.recursionLimit at hlimit
          omega

/-- An item's fields are its own or the exchange's. -/
theorem nesting_mergedFields_le {top : BatchReq} {item : Map} {bound : ℕ}
    (htop : top.Within bound) (hitem : Value.Within bound item) :
    Value.Within bound (mergedFields top item) := by
  intro member hmember
  rcases List.mem_filterMap.mp hmember with ⟨key, _, hfield⟩
  rcases Option.map_eq_some_iff.mp hfield with ⟨value, hvalue, rfl⟩
  rw [field, Option.orElse_eq_orElse, Option.orElse_eq_or,
    Option.or_eq_some_iff] at hvalue
  rcases hvalue with hown | ⟨_, hdefault⟩
  · exact hitem.get hown
  · exact htop.default key value hdefault

/-- So an item comes to a request no deeper than a body of its own. -/
theorem within_of_merged {serdeMessage : SerdeError → String}
    {top : BatchReq} {index : Option ℕ} {item : Value} {req : DecideReq}
    (htop : top.Within 126) (hitem : item.nesting ≤ 126)
    (hmerged : merged serdeMessage top index item = .ok req) :
    req.Within 125 := by
  unfold merged at hmerged
  split at hmerged
  case h_1 => cases hmerged
  case h_2 members hmembers =>
    have hobject : item = .object members := by
      cases item <;> simp_all [Value.asObject]
    rw [hobject] at hitem
    have hfields := nesting_mergedFields_le htop
      ((Value.nesting_object_le_iff members 126).mp (hitem.trans (by omega)))
    have htree := (Value.nesting_object_le_iff _ 126).mpr hfields
    cases hread : readDecideReq valueSource
        (.object (mergedFields top members)) with
    | error error =>
        rw [hread] at hmerged
        cases hmerged
    | ok found =>
        rw [hread] at hmerged
        cases hmerged
        refine Decide.within_of_readDecideReq hread ?_ ?_
        · rintro context ⟨child, hchild, hvalue⟩
          cases hvalue
          have hlt := Serde.nesting_lt_of_holds hchild
          omega
        · rintro party properties hparty ⟨child, hchild, hvalue⟩
          cases hvalue
          have hlt := Serde.nesting_lt_of_holds hparty
          have hinner := Serde.nesting_lt_of_holds hchild
          omega

end Batch

/-! ## What is recorded of requests -/

open Decide (Authenticated DecideReq Host admitNamed admitReq evaluateOne
  parseDecideReq)
open Batch (facts merged parseBatchReq)

/-- A request the server comes to and admits: a body of its own, an exchange
without items, or an item with what it inherits. -/
inductive Asks (P : Platform) (caller : Option Authenticated) :
    DecideReq → Prop where
  | alone {body : String} {req : DecideReq}
      (parsed : parseDecideReq P.floats body = .ok req)
      (admitted : admitReq caller req = none) : Asks P caller req
  | bare {body : String} {top : Batch.BatchReq} {req : DecideReq}
      (parsed : parseBatchReq P.floats body = .ok top)
      (comes : merged P.serdeMessage top none (.object []) = .ok req)
      (admitted : admitReq caller req = none) : Asks P caller req
  | item {body : String} {top : Batch.BatchReq} {index : ℕ} {item : Value}
      {req : DecideReq} (parsed : parseBatchReq P.floats body = .ok top)
      (listed : (top.evaluations.getD [])[index]? = some item)
      (admitted : admitNamed caller (facts top item) = none)
      (comes : merged P.serdeMessage top (some index) item = .ok req) :
      Asks P caller req

variable {P : Platform}

theorem Asks.within {caller : Option Authenticated} {req : DecideReq}
    (hasks : Asks P caller req) : req.Within 125 := by
  cases hasks with
  | alone parsed _ => exact Decide.within_of_parse parsed
  | bare parsed comes _ =>
      exact Batch.within_of_merged (Batch.within_of_parseBatchReq parsed)
        (by decide) comes
  | item parsed listed _ comes =>
      have htop := Batch.within_of_parseBatchReq parsed
      exact Batch.within_of_merged htop
        (htop.item _ (List.mem_of_getElem? listed)) comes

variable (P) in
/-- An entry as it is recorded of a request's decision: settled, and under its
number. -/
def Entry.Decides (entry : Entry) : Prop :=
  ∃ (S Q E C : Type) (host : Host S Q E C) (caller : Option Authenticated)
    (req : DecideReq) (evaluated : Decide.Evaluated)
    (registry : String → MissionStatus) (settled : Entry) (seq : ℕ),
    Asks P caller req ∧ evaluateOne host caller req = .ok evaluated ∧
    settle registry evaluated.entry = .ok settled ∧
    entry = settled.withSeq seq

theorem context_of_settle {registry : String → MissionStatus}
    {entry settled : Entry} (hsettled : settle registry entry = .ok settled) :
    settled.context = entry.context := by
  rcases settle_cases hsettled with rfl | ⟨reasons, rfl⟩
  · rfl
  · rfl

theorem Entry.Decides.withSeq {entry : Entry} (hentry : entry.Decides P)
    (seq : ℕ) : (entry.withSeq seq).Decides P := by
  rcases hentry with ⟨S, Q, E, C, host, caller, req, evaluated, registry,
    settled, _, hasks, hevaluated, hsettled, rfl⟩
  exact ⟨S, Q, E, C, host, caller, req, evaluated, registry, settled, seq,
    hasks, hevaluated, hsettled, rfl⟩

/-- Whatever is recorded of a request is within the verifier's limit. -/
theorem Entry.Decides.withinLimit {entry : Entry} (hentry : entry.Decides P) :
    entry.WithinLimit := by
  rcases hentry with ⟨S, Q, E, C, host, caller, req, evaluated, registry,
    settled, seq, hasks, hevaluated, hsettled, rfl⟩
  have hbound := Decide.nesting_evaluated_le hasks.within (by omega)
    hevaluated
  rw [← context_of_settle hsettled] at hbound
  rw [Entry.withSeq_withinLimit, Entry.WithinLimit, Serde.recursionLimit]
  omega

end Decern
