import Decern.BatchLaw
import Decern.MissionDecisions
import Mathlib.Tactic

/-!
# Two readers of one item

Admission reads an item as it stands, evaluation reads it into a request, and
the record is made of the request.  The three are of one subject, one decision
subject and one description unless a party is written as an array.
-/

namespace Decern.Batch

open Decide (Authenticated DecideReq Evaluated Host Prepared describing
  evaluateOne namedDecisionSubject prepare)
open Serde (Map SerdeError Value valueSource)

/-! ## Descriptions in arrays -/

/-- A description an array holds at the place of its properties. -/
def describedAt (place : ℕ) : Option Value → Bool
  | some (.array items) =>
      (items[place]?.bind Value.asObject).any fun members => !members.isEmpty
  | _ => false

theorem describedAt_array {items : List Value} {place depth : ℕ}
    {name : String} {properties : Option Map}
    (hread : Serde.defaulted (valueSource.shape (.array items)) place name none
      (Serde.readOption valueSource (Serde.readMap valueSource depth)) =
        .ok properties) :
    describing properties = describedAt place (some (.array items)) := by
  simp only [Serde.defaulted, Serde.field, valueSource, bind, Except.bind]
    at hread
  cases hitem : items[place]? with
  | none =>
      rw [hitem] at hread
      cases hread
      simp [describing, describedAt, hitem]
  | some item =>
      rw [hitem] at hread
      rw [properties_of_readOption hread]
      simp [describing, describedAt, hitem]

theorem describing_ref {depth : ℕ} {party : Value} {ref : Decide.Ref}
    (hread : Decide.readRef valueSource depth party = .ok ref) :
    describing ref.properties =
      (describesIn (some party) || describedAt 2 (some party)) := by
  rw [(facts_of_readRef hread).2]
  unfold Decide.readRef at hread
  rcases Serde.bind_eq_ok.mp hread with ⟨_, hstruct, hread⟩
  rcases Serde.bind_eq_ok.mp hread with ⟨ty, _, hread⟩
  rcases Serde.bind_eq_ok.mp hread with ⟨id, _, hread⟩
  rcases Serde.bind_eq_ok.mp hread with ⟨properties, hproperties, hread⟩
  cases hread
  cases party with
  | array items => simp [positional, describedAt_array hproperties]
  | object members => simp [positional, describedAt]
  | _ => cases hstruct

theorem describing_action {depth : ℕ} {party : Value} {action : Decide.Action}
    (hread : Decide.readAction valueSource depth party = .ok action) :
    describing action.properties =
      (describesIn (some party) || describedAt 1 (some party)) := by
  rw [facts_of_readAction hread]
  unfold Decide.readAction at hread
  rcases Serde.bind_eq_ok.mp hread with ⟨_, hstruct, hread⟩
  rcases Serde.bind_eq_ok.mp hread with ⟨name, _, hread⟩
  rcases Serde.bind_eq_ok.mp hread with ⟨properties, hproperties, hread⟩
  cases hread
  cases party with
  | array items => simp [positional, describedAt_array hproperties]
  | object members => simp [positional, describedAt]
  | _ => cases hstruct

/-- No array holds what admission is to see: the subject is none, and where one
holds a description another party describes itself in the open. -/
def InTheOpen (top : BatchReq) (item : Map) : Prop :=
  positional (field top item "subject") = false ∧
    (describedAt 2 (field top item "resource") = true ∨
        describedAt 1 (field top item "action") = true →
      ∃ key ∈ ["subject", "resource", "action"],
        describesIn (field top item key) = true)

instance (top : BatchReq) (item : Map) : Decidable (InTheOpen top item) :=
  inferInstanceAs (Decidable (_ ∧ _))

section Item

variable {serdeMessage : SerdeError → String} {top : BatchReq}
  {index : Option ℕ} {req : DecideReq}

/-- Admission reads the facts of the request exactly in the open. -/
theorem facts_eq_iff_inTheOpen {item : Map}
    (hmerged : merged serdeMessage top index (.object item) = .ok req) :
    facts top (.object item) = req.facts ↔ InTheOpen top item := by
  rcases parties_of_merged hmerged with
    ⟨s, a, r, hs, ha, hr, hsubject, haction, hresource, _⟩
  have hdescribes : req.facts.describes =
      (["subject", "resource", "action"].any
          (fun key => describesIn (field top item key)) ||
        (describedAt 2 (some s) || describedAt 2 (some r) ||
          describedAt 1 (some a))) := by
    simp only [DecideReq.facts, describing_ref hsubject,
      describing_ref hresource, describing_action haction, List.any_cons,
      List.any_nil, Bool.or_false, hs, ha, hr]
    simp only [Bool.or_assoc, Bool.or_left_comm]
  have hopenly : openly top item req = ["subject", "resource", "action"].any
      fun key => describesIn (field top item key) := by
    simp only [openly, hs, ha, hr, List.any_cons, List.any_nil, Bool.or_false,
      (facts_of_readRef hsubject).2, (facts_of_readRef hresource).2,
      facts_of_readAction haction, Bool.or_assoc]
  have hobject : positional (some s) = false →
      describedAt 2 (some s) = false := by
    intro hpositional
    cases s <;> simp_all [positional, describedAt]
  rw [facts_eq_iff hmerged, InTheOpen, hopenly, hdescribes, hs, ha, hr]
  constructor
  · rintro ⟨hpositional, hopen⟩
    refine ⟨hpositional, fun hhidden => ?_⟩
    rw [← List.any_eq_true]
    apply hopen
    rcases hhidden with hhidden | hhidden <;> simp [hhidden]
  · rintro ⟨hpositional, hopen⟩
    refine ⟨hpositional, fun hreq => ?_⟩
    rw [hobject hpositional, Bool.false_or, Bool.or_eq_true,
      Bool.or_eq_true] at hreq
    rcases hreq with hshown | hhidden
    · exact hshown
    · rw [List.any_eq_true]
      exact hopen hhidden

end Item

/-! ## What is recorded -/

section Recorded

variable {S P E C : Type} {host : Host S P E C}
  {caller : Option Authenticated} {req : DecideReq} {p : Prepared}

/-- A third party is recorded under the handle that is read for admission. -/
theorem handle_of_takeDecisionSubject {raw : Option Value} {id : String}
    {owner : Option String} {subject : DecisionSubject}
    (htaken : Decide.takeDecisionSubject host raw id owner =
      .ok (some subject)) :
    namedDecisionSubject raw = some subject.handle ∧ subject.handle ≠ id := by
  unfold Decide.takeDecisionSubject at htaken
  split at htaken
  case h_1 => cases htaken
  case h_2 named hnamed =>
    have hraw : raw = some named := (Option.filter_eq_some_iff.mp hnamed).1
    split at htaken
    case h_1 => cases htaken
    case h_2 found hread =>
      split_ifs at htaken with _ _ hself
      next => cases htaken
      have hsame : found = subject := Option.some.inj (Except.ok.inj htaken)
      subst hsame
      refine ⟨?_, fun hsame => hself (Or.inl hsame)⟩
      rw [hraw]
      unfold readDecisionSubject at hread
      cases named with
      | string handle =>
          cases hread
          rfl
      | object members =>
          rcases Serde.bind_eq_ok.mp hread with ⟨handle, hhandle, hread⟩
          rcases Serde.bind_eq_ok.mp hread with ⟨_, _, hread⟩
          rcases Serde.bind_eq_ok.mp hread with ⟨_, _, hread⟩
          cases hread
          rcases Serde.required_object_eq_ok hhandle with
            ⟨child, hchild, htext⟩
          simp [namedDecisionSubject, Value.get, get_of_member hchild,
            readString_value htext, Value.asStr]
      | _ => cases hread

/-- Binding a Mission changes no member but the flags. -/
theorem get_applied (bind : MissionBind) (action : String) {now : UInt64}
    {name : String} (hconsent : name ≠ "consent")
    (happroved : name ≠ "human_approved") :
    (Decide.applyBind bind (req.merged now) action).2.2.get name =
      (req.merged now).get name := by
  have hstripped : (Decide.stripClientApprovalFlags (req.merged now)).get
      name = (req.merged now).get name := by
    simp [Decide.stripClientApprovalFlags, Value.get_remove, hconsent,
      happroved]
  cases bind with
  | none => rfl
  | deny errors => exact hstripped
  | ok reference =>
      simp only [Decide.applyBind, Decide.applyMissionContext]
      split_ifs
      · rcases (⟨_, rfl⟩ : ∃ members : Map,
            Decide.stripClientApprovalFlags (req.merged now) =
              .object members) with ⟨members, hmembers⟩
        rw [hmembers] at hstripped ⊢
        rw [Value.get_insert, if_neg happroved]
        exact hstripped
      · exact hstripped

/-- The decision subject is taken from the request's own context. -/
theorem prepared_decisionSubject (hprepare : prepare host caller req = .ok p) :
    Decide.takeDecisionSubject host
        ((req.context.getD []).get "decision_subject") req.subject.id
        (host.ownerOf req.resource.id) = .ok p.decisionSubject := by
  unfold prepare at hprepare
  cases hnames : Decide.nameTooLarge req.names with
  | some refusal =>
      rw [hnames] at hprepare
      cases hprepare
  | none =>
      rw [hnames] at hprepare
      rcases Serde.bind_eq_ok.mp hprepare with
        ⟨⟨ctx, now, asserted⟩, hcontext, hprepare⟩
      rcases Decide.prepareContext_eq_ok hcontext with ⟨_, rfl⟩
      rcases Serde.bind_eq_ok.mp hprepare with ⟨subject, hsubject, hprepare⟩
      cases hprepare
      rw [Value.get_remove_ne (by decide), Value.get_remove_ne (by decide)]
        at hsubject
      have hraw := @get_applied req (host.bindOf req now) req.action.name now
        "decision_subject" (by decide) (by decide)
      have hmerged : (req.merged now).get "decision_subject" =
          (req.context.getD []).get "decision_subject" := by
        simp [DecideReq.merged, Decide.get_kernelContext]
      rw [hmerged] at hraw
      change (Decide.takeDecisionSubject host ((Decide.applyBind
        (host.bindOf req now) (req.merged now) req.action.name).2.2.get
          "decision_subject") req.subject.id _).mapError _ = _ at hsubject
      rw [hraw] at hsubject
      cases htaken : Decide.takeDecisionSubject host
          ((req.context.getD []).get "decision_subject") req.subject.id
          (host.ownerOf req.resource.id) with
      | error why =>
          rw [htaken] at hsubject
          cases hsubject
      | ok found =>
          rw [htaken] at hsubject
          cases hsubject
          rfl

/-- What is evaluated is recorded under the request's own subject, and under a
decision subject only for a third party. -/
theorem recorded_of_evaluated {evaluated : Evaluated}
    (hevaluated : evaluateOne host caller req = .ok evaluated) :
    evaluated.entry.subjectId = req.subject.id ∧
      ∀ subject, evaluated.entry.decisionSubject = some subject →
        req.facts.decisionSubject = some subject.handle ∧
          subject.handle ≠ req.subject.id := by
  unfold evaluateOne at hevaluated
  rcases Serde.bind_eq_ok.mp hevaluated with ⟨p, hprepare, hevaluated⟩
  rcases Serde.bind_eq_ok.mp hevaluated with ⟨challenge, _, hevaluated⟩
  cases hevaluated
  constructor
  · change p.subject.id = _
    rw [(Decide.prepares_of_ok hprepare).subject]
  · intro subject hsubject
    change p.decisionSubject = some subject at hsubject
    have htaken := prepared_decisionSubject hprepare
    rw [hsubject] at htaken
    rcases handle_of_takeDecisionSubject htaken with ⟨hnamed, hother⟩
    refine ⟨?_, hother⟩
    rw [DecideReq.facts]
    cases hcontext : req.context with
    | none =>
        rw [hcontext] at hnamed
        cases hnamed
    | some context =>
        rw [hcontext] at hnamed
        exact hnamed

/-- A request about its caller alone, as it is evaluated and recorded. -/
structure AboutCaller (host : Host S P E C) (who : Authenticated)
    (req : DecideReq) : Prop where
  subject : req.subject.id = who.subject
  decisionSubject : ∀ handle, req.facts.decisionSubject = some handle →
    handle = who.subject
  undescribed : req.facts.describes = false
  recorded : ∀ evaluated, evaluateOne host (some who) req = .ok evaluated →
    evaluated.entry.subjectId = who.subject ∧
      evaluated.entry.decisionSubject = none

theorem aboutCaller_of_admitted {who : Authenticated}
    (hself : who.bind = .selfOnly)
    (hadmitted : Decide.admitReq (some who) req = none) :
    AboutCaller host who req := by
  rcases self_of_admitNamed hself hadmitted with
    ⟨hsubject, hdecision, hdescribes⟩
  have hsame : req.subject.id = who.subject := (hsubject _ rfl).symm
  refine ⟨hsame, fun handle hhandle => (hdecision handle hhandle).symm,
    hdescribes, fun evaluated hevaluated => ?_⟩
  rcases recorded_of_evaluated hevaluated with ⟨hid, hthird⟩
  refine ⟨hid.trans hsame, ?_⟩
  cases hnone : evaluated.entry.decisionSubject with
  | none => rfl
  | some subject =>
      rcases hthird subject hnone with ⟨hnamed, hother⟩
      exact absurd ((hdecision _ hnamed).symm.trans hsame.symm) hother

end Recorded

/-! ## The records of an exchange -/

section Exchange

variable {P : Platform} {S Q E C : Type} {who : Authenticated}
  {top : BatchReq} {semantic : Semantic} {moments : ℕ → Moment S Q E C}

/-- An entry of the caller's own, about no third party. -/
def OwnEntry (who : Authenticated) (entry : Entry) : Prop :=
  entry.subjectId = who.subject ∧ entry.decisionSubject = none

theorem ownEntry_of_settle {status : String → MissionStatus}
    {entry settled : Entry} (hsettle : settle status entry = .ok settled)
    (hown : OwnEntry who entry) : OwnEntry who settled := by
  rcases settle_cases hsettle with rfl | ⟨reasons, rfl⟩
  · exact hown
  · exact hown

theorem ownEntry_of_records {meeting : Meeting} {entry : Entry}
    {record : RecordOut} (hrecords : meeting.Records entry record)
    (hown : OwnEntry who entry) : OwnEntry who record.entry := by
  rcases hrecords with ⟨settled, hsettled, hentry⟩
  have hsame : OwnEntry who settled := by
    rcases hsettled with hsettled | hsettled
    · exact ownEntry_of_settle hsettled hown
    · exact ownEntry_of_settle hsettled hown
  rw [hentry]
  exact hsame

/-- Only a request that was evaluated is recorded. -/
theorem evaluated_of_answer {host : Host S Q E C}
    {caller : Option Authenticated} {index : ℕ} {item : Value}
    {oversize : Bool} {shard : Decide.RecordShard} {entry : Entry}
    (hrecord : (answer P host caller top index item oversize).record =
      some (shard, entry)) :
    ∃ req evaluated, merged P.serdeMessage top (some index) item = .ok req ∧
      evaluateOne host caller req = .ok evaluated ∧
      evaluated.entry = entry := by
  unfold answer at hrecord
  split at hrecord
  case isTrue => cases hrecord
  case isFalse =>
    split at hrecord
    case h_1 => cases hrecord
    case h_2 req hmerged =>
      split at hrecord
      case h_1 => cases hrecord
      case h_2 evaluated hevaluated =>
        cases hrecord
        exact ⟨req, evaluated, hmerged, hevaluated, rfl⟩

/-- An admitted item in the open is recorded as the caller's own. -/
theorem ownEntry_of_answer {host : Host S Q E C} {index : ℕ} {item : Value}
    {oversize : Bool} {shard : Decide.RecordShard} {entry : Entry}
    (hself : who.bind = .selfOnly)
    (hadmitted : Decide.admitNamed (some who) (facts top item) = none)
    (hopen : ∀ members, item = .object members → InTheOpen top members)
    (hrecord : (answer P host (some who) top index item oversize).record =
      some (shard, entry)) : OwnEntry who entry := by
  rcases evaluated_of_answer hrecord with
    ⟨req, evaluated, hmerged, hevaluated, rfl⟩
  cases item with
  | object members =>
      have hfacts := (facts_eq_iff_inTheOpen hmerged).mpr (hopen members rfl)
      rw [hfacts] at hadmitted
      exact (aboutCaller_of_admitted hself hadmitted).recorded _ hevaluated
  | _ => cases hmerged

theorem Serves.settles {caller : Option Authenticated} {index : ℕ}
    {items : List Value} {settled : List Settled}
    (hserves : Serves P caller top semantic moments index items settled) :
    ∀ s ∈ settled, ∃ index, ∃ item ∈ items,
      (answerAt P caller top moments index item).Settles
        (moments index).meeting s := by
  induction hserves with
  | all => simp
  | stops hsettles =>
      intro s hs
      rw [List.mem_singleton] at hs
      subst hs
      exact ⟨_, _, List.mem_cons_self, hsettles⟩
  | next hsettles _ _ ih =>
      intro s hs
      rcases List.mem_cons.mp hs with rfl | hs
      · exact ⟨_, _, List.mem_cons_self, hsettles⟩
      · rcases ih s hs with ⟨later, item, hitem, hsettles⟩
        exact ⟨later, item, List.mem_cons_of_mem _ hitem, hsettles⟩

theorem Begins.settles {caller : Option Authenticated} {index : ℕ}
    {items : List Value} {settled : List Settled}
    (hbegins : Begins P caller top semantic moments index items settled) :
    ∀ s ∈ settled, ∃ index, ∃ item ∈ items,
      (answerAt P caller top moments index item).Settles
        (moments index).meeting s := by
  induction hbegins with
  | nil => simp
  | cons hsettles _ _ ih =>
      intro s hs
      rcases List.mem_cons.mp hs with rfl | hs
      · exact ⟨_, _, List.mem_cons_self, hsettles⟩
      · rcases ih s hs with ⟨later, item, hitem, hsettles⟩
        exact ⟨later, item, List.mem_cons_of_mem _ hitem, hsettles⟩

/-- A batch of items in the open lands the caller's own records. -/
theorem ownEntry_of_landed {quoted : String → String} {closing : Closing}
    {backend : LedgerBackend P} (hself : who.bind = .selfOnly)
    (hopen : ∀ members,
      .object members ∈ top.evaluations.getD [] → InTheOpen top members) :
    ∀ record ∈ (evaluateAll quoted (some who) top moments closing
      backend).2.1, OwnEntry who record.entry := by
  have hlawful := lawful_evaluateAll quoted (some who) top moments closing
    backend
  have hitems : ∀ {semantic items} {settled : List Settled},
      Under quoted (some who) top semantic items →
      (∀ s ∈ settled, ∃ index, ∃ item ∈ items,
        (answerAt P (some who) top moments index item).Settles
          (moments index).meeting s) →
      ∀ record ∈ landedOf settled, OwnEntry who record.entry := by
    intro semantic items settled hunder hsettles record hrecord
    rcases hunder with ⟨_, hsome, _, hadmitted⟩
    rcases List.mem_filterMap.mp hrecord with ⟨s, hs, hlanded⟩
    rcases hsettles s hs with ⟨index, item, hitem, hsettles⟩
    unfold Answer.Settles at hsettles
    split at hsettles
    case h_1 =>
      rw [hsettles] at hlanded
      cases hlanded
    case h_2 shard entry hanswer =>
      rcases hsettles with ⟨found, hrecords, rfl⟩
      cases hlanded
      refine ownEntry_of_records hrecords (ownEntry_of_answer hself
        (hadmitted item hitem) ?_ hanswer)
      rintro members rfl
      apply hopen
      rw [hsome]
      exact hitem
  intro record hrecord
  rcases hresponse : (evaluateAll quoted (some who) top moments closing
    backend).2.2 with refusal | error | body | results
  · rw [(hlawful.refused refusal hresponse).2] at hrecord
    cases hrecord
  · rcases hlawful.unrecorded error hresponse with
      hnone | ⟨semantic, items, settled, hunder, hbegins, hlanded⟩
    · rw [hnone] at hrecord
      cases hrecord
    · rw [hlanded] at hrecord
      exact hitems hunder hbegins.settles record hrecord
  · rcases hlawful.alone body hresponse with ⟨_, req, evaluated, landed, _,
      hadmitted, hevaluated, hrecords, hlanded, _⟩
    rw [hlanded, List.mem_singleton] at hrecord
    subst hrecord
    exact ownEntry_of_records hrecords
      ((aboutCaller_of_admitted hself hadmitted).recorded _ hevaluated)
  · rcases hlawful.served results hresponse with
      ⟨semantic, items, settled, hunder, hserves, _, _, hlanded⟩
    rw [hlanded] at hrecord
    exact hitems hunder hserves.settles record hrecord

end Exchange

/-! ## What admission comes to -/

/-- Admission reads of an item what its evaluation does, and an admitted caller
bound to itself is evaluated about itself alone, exactly when no array holds
what admission is to see; and the records of a batch of such items are the
caller's own. -/
theorem admission_is_evaluation_iff {P : Platform} (top : BatchReq) :
    (∀ (index : Option ℕ) (item : Value) (req : DecideReq),
      merged P.serdeMessage top index item = .ok req →
      (facts top item = req.facts ∧
          (∀ {S Q E C : Type} (host : Host S Q E C) (who : Authenticated),
            who.bind = .selfOnly →
            Decide.admitNamed (some who) (facts top item) = none →
            AboutCaller host who req) ↔
        ∀ members, item = .object members → InTheOpen top members)) ∧
    ∀ {S Q E C : Type} (quoted : String → String) (who : Authenticated)
        (moments : ℕ → Moment S Q E C) (closing : Closing)
        (backend : LedgerBackend P), who.bind = .selfOnly →
      (∀ members, .object members ∈ top.evaluations.getD [] →
        InTheOpen top members) →
      ∀ record ∈ (evaluateAll quoted (some who) top moments closing
        backend).2.1, OwnEntry who record.entry := by
  constructor
  · intro index item req hmerged
    cases item with
    | object members =>
        have hfacts := facts_eq_iff_inTheOpen hmerged
        constructor
        · rintro ⟨hsame, _⟩ found ⟨⟩
          exact hfacts.mp hsame
        · intro hopen
          have hsame := hfacts.mpr (hopen members rfl)
          refine ⟨hsame, fun host who hself hadmitted => ?_⟩
          rw [hsame] at hadmitted
          exact aboutCaller_of_admitted hself hadmitted
    | _ => cases hmerged
  · intro S Q E C quoted who moments closing backend hself hopen
    exact ownEntry_of_landed hself hopen

/-! ## A caller and another's subject -/

def boundCaller (subject : String) : Authenticated where
  subject := subject
  clientId := subject
  issuer := none
  bind := .selfOnly

def readItem (subject : Value) : Value :=
  .object [("subject", subject),
    ("action", .object [("name", .string "Read")]),
    ("resource", .array [.string "Resource", .string "acct"])]

def openSubject : Value :=
  .object [("type", .string "Principal"), ("id", .string "bot")]

def arraySubject : Value := .array [.string "Principal", .string "bot"]

/-- Nothing happens in between and nothing fails. -/
def quietMeeting : Meeting where
  meanwhile := id
  before := id
  registry _ := .ok none
  fault := none
  storeFault := none
  between := id
  laterRegistry _ := .ok none
  laterFault := none

def newLedger : SingleLedger where
  ledger := {
    key := sampleKey 1, lastHash := genesis, nextSeq := 0
    verifiers := [sampleKey 1], signers := [], sync := true
    failed := false }
  file := []
  poisoned := false

/-- The records a batch of one read lands for a caller bound to itself. -/
def readBatch (kernel : Kernel Unit (List Cedar.Policy) Cedar.Entities)
    (caller : String) (subject : Value) : List RecordOut :=
  (evaluateAll (P := samplePlatform) id (some (boundCaller caller))
    { evaluations := some [readItem subject] }
    (fun _ => ⟨Decide.sampleHost kernel, quietMeeting⟩) ⟨id, none⟩
    (.single "ledger" newLedger)).2.1

def readRecords (caller : String) (subject : Value) :
    Option (List (String × Bool)) :=
  (Kernel.new (declaredEngine sampleFloats) sampleModel).toOption.map
    fun kernel => (readBatch kernel caller subject).map fun record =>
      (record.entry.subjectId, record.entry.decision)

theorem readBatch_own : readRecords "bot" openSubject =
    some [("bot", true)] := by
  decide +kernel

theorem inTheOpen_openSubject : ∀ members,
    readItem openSubject = .object members → InTheOpen {} members := by
  rintro members ⟨⟩
  decide

theorem admission_is_evaluation_iff_sample :
    facts {} (readItem openSubject) =
        DecideReq.facts ⟨⟨"Principal", "bot", none⟩, ⟨"Read", none⟩,
          ⟨"Resource", "acct", none⟩, none⟩ ∧
      ∃ kernel, ∃ record ∈ readBatch kernel "bot" openSubject,
        record.entry.decision = true ∧
        OwnEntry (boundCaller "bot") record.entry := by
  constructor
  · exact (((admission_is_evaluation_iff (P := samplePlatform) {}).1 (some 0)
      _ _ rfl).mpr inTheOpen_openSubject).1
  · rcases Option.map_eq_some_iff.mp readBatch_own with
      ⟨kernel, _, hrecords⟩
    have hrecord : ("bot", true) ∈ (readBatch kernel "bot" openSubject).map
        fun record => (record.entry.subjectId, record.entry.decision) := by
      rw [hrecords]
      exact List.mem_singleton_self _
    rcases List.mem_map.mp hrecord with ⟨record, hmem, hentry⟩
    refine ⟨kernel, record, hmem, (Prod.mk.inj hentry).2, ?_⟩
    refine (admission_is_evaluation_iff _).2 _ _ _ _ _ rfl ?_ record hmem
    intro members hitem
    exact inTheOpen_openSubject members (List.mem_singleton.mp hitem).symm

/-- A caller bound to itself is admitted with another's subject in an array,
and what it may read is decided and recorded. -/
theorem admission_not_evaluation :
    (¬ ∀ (top : BatchReq) (index : Option ℕ) (item : Value)
        (req : DecideReq),
      merged samplePlatform.serdeMessage top index item = .ok req →
      facts top item = req.facts) ∧
      Decide.admitNamed (some (boundCaller "alice"))
        (facts {} (readItem arraySubject)) = none ∧
      readRecords "alice" arraySubject = some [("bot", true)] ∧
      readRecords "alice" openSubject = some [] := by
  refine ⟨?_, rfl, ?_, ?_⟩
  · intro hsame
    have hfacts := hsame {} (some 0) (readItem arraySubject) _ rfl
    cases congrArg Decide.Facts.subjectId hfacts
  · decide +kernel
  · decide +kernel

end Decern.Batch
