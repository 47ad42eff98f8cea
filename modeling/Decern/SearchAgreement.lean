import Decern.ContextPruning
import Decern.DecideSearch
import Decern.MissionDecisions
import Mathlib.Tactic

/-!
# Searches and evaluations

A candidate is found where the kernel allows it; it is decided where the
evaluation of the request with the candidate filled in is an Allow.  The two
are one condition apart.
-/

namespace Decern.Decide

open Serde (Map Value)

/-! ## Members that name something -/

/-- A member that is neither absent nor `null`. -/
def Names (context : Map) (key : String) : Prop :=
  ∃ value, context.get key = some value ∧ value.isNull = false

theorem null_of_not_names {context : Map} {key : String} {value : Value}
    (hnames : ¬ Names context key) (hvalue : context.get key = some value) :
    value = .null := by
  by_contra hother
  apply hnames
  refine ⟨value, hvalue, ?_⟩
  cases value with
  | null => exact absurd rfl hother
  | bool flag => rfl
  | number number => rfl
  | string text => rfl
  | array items => rfl
  | object members => rfl

/-- An absent member and a `null` one are filtered alike. -/
theorem filter_of_null {found : Option Value}
    (hnull : ∀ value, found = some value → value = .null) :
    found.filter (fun value => !value.isNull) = none := by
  cases found with
  | none => rfl
  | some value =>
      rw [hnull value rfl]
      rfl

theorem prune_null (shape : Declared) : shape.prune .null = .null :=
  Declared.prune_of_asObject_eq_none rfl

theorem null_of_prune {shape : Declared} {members : Map} {key : String}
    (hnull : ∀ value, members.get key = some value → value = .null)
    {value : Value}
    (hvalue : (shape.prune (.object members)).get key = some value) :
    value = .null := by
  cases shape with
  | unread =>
      rw [Declared.prune_unread] at hvalue
      exact hnull value hvalue
  | record attrs =>
      rw [Declared.get_prune] at hvalue
      obtain ⟨child, _, hvalue⟩ := Option.bind_eq_some_iff.mp hvalue
      obtain ⟨item, hitem, rfl⟩ := Option.map_eq_some_iff.mp hvalue
      rw [hnull item hitem, prune_null]

/-! ## The request with a candidate in it -/

def SearchReq.filled (req : SearchReq) (what : For) (candidate : String) :
    DecideReq where
  subject := {
    ty := req.subject.ty
    id := if what = .subject then candidate else req.subject.id.getD ""
    properties := req.subject.properties }
  action :=
    if what = .action then { name := candidate }
    else req.action.getD { name := "" }
  resource := {
    ty := req.resource.ty
    id := if what = .resource then candidate else req.resource.id.getD ""
    properties := req.resource.properties }
  context := req.context

def SearchReq.merged (req : SearchReq) (now : UInt64) : Value :=
  kernelContext (req.context.getD []) (described req.subject.properties)
    (described req.resource.properties)
    (described (req.action.bind Action.properties)) now

/-- The context every candidate of a search is put to the kernel under. -/
def SearchReq.asked (req : SearchReq) (now : UInt64) : Value :=
  ((req.merged now).remove "decision_subject").remove "subject_side_challenge"

variable {S P E C : Type}

def Host.subjectOf (host : Host S P E C) (req : DecideReq) : EntityRef :=
  ⟨host.modelType req.subject.ty, req.subject.id⟩

def Host.resourceOf (host : Host S P E C) (req : DecideReq) : EntityRef :=
  ⟨host.modelType req.resource.ty, req.resource.id⟩

/-- The kernel allows what is requested, under a context pruned for it. -/
def Host.Allows (host : Host S P E C) (req : DecideReq) (ctx : Value) :
    Prop :=
  (host.kernel.check host.engine (host.subjectOf req) req.action.name
    (host.resourceOf req)
    (host.kernel.pruneUndeclaredContext req.action.name ctx)).decision = true

/-- What a search may find. -/
def Host.candidates (host : Host S P E C) : For → List String
  | .subject => host.dir.principals.keys
  | .resource => host.dir.resources.keys
  | .action => host.kernel.contextShape.keys

/-- A search's input is in the directory, its types the kernel's own. -/
def Host.Known (host : Host S P E C) (req : SearchReq) (what : For) : Prop :=
  known host what
    ⟨host.modelType req.subject.ty, req.subject.id.getD ""⟩
    ⟨host.modelType req.resource.ty, req.resource.id.getD ""⟩ = true

/-- The evaluation of a request is admitted and decides true. -/
def Host.DecidesTrue (host : Host S P E C) (caller : Option Authenticated)
    (req : DecideReq) : Prop :=
  admitReq caller req = none ∧ ∃ evaluated,
    evaluateOne host caller req = .ok evaluated ∧ evaluated.decision = true

/-! ## What a search checks -/

variable {host : Host S P E C} {caller : Option Authenticated}
  {req : SearchReq} {what : For} {found : Searched} {now : UInt64}

theorem nameTooLarge_eq_none {names : List (String × String)} :
    nameTooLarge names = none ↔ ∀ name ∈ names, name.2.utf8ByteSize ≤ 1024 := by
  simp [nameTooLarge]

theorem needs_eq_ok {present : Bool} {field : String} :
    what.needs present field = .ok () ↔ present = true := by
  unfold For.needs
  cases present <;> simp

/-- What is required of a search's request. -/
structure SearchReq.Requires (req : SearchReq) (what : For) : Prop where
  names : ∀ name ∈ req.names, name.2.utf8ByteSize ≤ 1024
  subject : what ≠ .subject → req.subject.id.isSome
  resource : what ≠ .resource → req.resource.id.isSome
  action : req.action.isSome ↔ what ≠ .action

theorem SearchParty.isSome_of_hasId {party : SearchParty}
    (hid : party.hasId = true) : party.id.isSome := by
  unfold SearchParty.hasId at hid
  cases hparty : party.id with
  | none => simp [hparty] at hid
  | some id => rfl

theorem requires_of_checked (hchecked : req.checked what = .ok ()) :
    req.Requires what := by
  unfold SearchReq.checked at hchecked
  cases hnames : nameTooLarge req.names with
  | some refusal =>
      rw [hnames] at hchecked
      cases hchecked
  | none =>
      rw [hnames] at hchecked
      cases what with
      | subject =>
          obtain ⟨_, hresource, hchecked⟩ := Serde.bind_eq_ok.mp hchecked
          obtain ⟨_, haction, _⟩ := Serde.bind_eq_ok.mp hchecked
          have hid := SearchParty.isSome_of_hasId (needs_eq_ok.mp hresource)
          have hsome := needs_eq_ok.mp haction
          exact {
            names := nameTooLarge_eq_none.mp hnames
            subject := fun hne => absurd rfl hne
            resource := fun _ => hid
            action := by simp [hsome] }
      | resource =>
          obtain ⟨_, hsubject, hchecked⟩ := Serde.bind_eq_ok.mp hchecked
          obtain ⟨_, haction, _⟩ := Serde.bind_eq_ok.mp hchecked
          have hid := SearchParty.isSome_of_hasId (needs_eq_ok.mp hsubject)
          have hsome := needs_eq_ok.mp haction
          exact {
            names := nameTooLarge_eq_none.mp hnames
            subject := fun _ => hid
            resource := fun hne => absurd rfl hne
            action := by simp [hsome] }
      | action =>
          obtain ⟨_, hsubject, hchecked⟩ := Serde.bind_eq_ok.mp hchecked
          obtain ⟨_, hresource, hchecked⟩ := Serde.bind_eq_ok.mp hchecked
          have hid := SearchParty.isSome_of_hasId (needs_eq_ok.mp hsubject)
          have hid' := SearchParty.isSome_of_hasId (needs_eq_ok.mp hresource)
          have hnone : req.action.isSome = false := by
            by_contra hsome
            rw [Bool.not_eq_false] at hsome
            rw [if_pos hsome] at hchecked
            cases hchecked
          exact {
            names := nameTooLarge_eq_none.mp hnames
            subject := fun _ => hid
            resource := fun _ => hid'
            action := by simp [hnone] }

/-- What an answered search comes to. -/
structure Searches (host : Host S P E C) (caller : Option Authenticated)
    (req : SearchReq) (what : For) (found : Searched) (now : UInt64) :
    Prop where
  required : req.Requires what
  admitted : admitSearch caller (req.unnamed what) what = none
  missionless : host.requireMission = false
  unbound : ¬ Names (req.context.getD []) "mission"
  clock : host.clock = some now
  fits : contextTooLarge host.engine.floats (req.merged now) = false
  ids : found.ids = (enumerate host what
    ⟨host.modelType (req.unnamed what).subject.ty,
      (req.unnamed what).subject.id.getD ""⟩
    ⟨host.modelType (req.unnamed what).resource.ty,
      (req.unnamed what).resource.id.getD ""⟩
    (req.action.map Action.name) (req.asked now) now).1

theorem not_names_of_not_namesAMission
    (hmission : req.namesAMission = false) :
    ¬ Names (req.context.getD []) "mission" := by
  rintro ⟨mission, hmission', hnull⟩
  unfold SearchReq.namesAMission at hmission
  cases hcontext : req.context with
  | none =>
      rw [hcontext] at hmission'
      cases hmission'
  | some context =>
      rw [hcontext, Option.getD_some] at hmission'
      simp [hcontext, hmission', hnull] at hmission

theorem fits_of_prepareContext {context : Map}
    {subject resource action : Option Map} {ctx : Value}
    {asserted : Option AssertedBy}
    (hcontext : prepareContext host caller context subject resource action =
      .ok (ctx, now, asserted)) :
    contextTooLarge host.engine.floats
      (kernelContext context subject resource action now) = false := by
  unfold prepareContext at hcontext
  split at hcontext
  case h_1 => cases hcontext
  case h_2 found hclock =>
    dsimp only at hcontext
    split_ifs at hcontext with hlarge
    cases hcontext
    simpa using hlarge

theorem searches_of_ok (hsearched : searched host caller req what = .ok found) :
    ∃ now, Searches host caller req what found now := by
  obtain ⟨_, hchecked, hsearched⟩ := Serde.bind_eq_ok.mp hsearched
  have hsame : (req.unnamed what).context = req.context ∧
      (req.unnamed what).action = req.action ∧
      (req.unnamed what).subject.properties = req.subject.properties ∧
      (req.unnamed what).resource.properties = req.resource.properties := by
    cases what <;> exact ⟨rfl, rfl, rfl, rfl⟩
  unfold search at hsearched
  dsimp only at hsearched
  cases hgranted : admitSearch caller (req.unnamed what) what with
  | some refusal =>
      rw [hgranted] at hsearched
      cases hsearched
  | none =>
      rw [hgranted] at hsearched
      dsimp only at hsearched
      have hnone : (host.requireMission ||
          (req.unnamed what).namesAMission) = false := by
        by_contra hsome
        rw [Bool.not_eq_false] at hsome
        rw [if_pos hsome] at hsearched
        cases hsearched
      rw [hnone] at hsearched
      obtain ⟨⟨ctx, now, asserted⟩, hcontext, hsearched⟩ :=
        Serde.bind_eq_ok.mp hsearched
      rw [Bool.or_eq_false_iff] at hnone
      obtain ⟨hclock, hctx⟩ := prepareContext_eq_ok hcontext
      have hfits := fits_of_prepareContext hcontext
      rw [hsame.1, hsame.2.1, hsame.2.2.1, hsame.2.2.2] at hctx hfits
      subst hctx
      cases hsearched
      have hunbound := not_names_of_not_namesAMission hnone.2
      rw [hsame.1] at hunbound
      exact ⟨now, {
        required := requires_of_checked hchecked
        admitted := hgranted
        missionless := hnone.1
        unbound := hunbound
        clock := hclock
        fits := hfits
        ids := by cases what <;> rfl }⟩

/-! ## The evaluation of a candidate -/

theorem facts_filled (hrequired : req.Requires what) (hwhat : what ≠ .subject)
    (candidate : String) :
    (req.filled what candidate).facts = (req.unnamed what).facts := by
  obtain ⟨id, hid⟩ := Option.isSome_iff_exists.mp (hrequired.subject hwhat)
  cases what with
  | subject => exact absurd rfl hwhat
  | resource =>
      obtain ⟨action, haction⟩ :=
        Option.isSome_iff_exists.mp (hrequired.action.mpr (by simp))
      simp [DecideReq.facts, SearchReq.facts, SearchReq.filled,
        SearchReq.unnamed, hid, haction]
  | action =>
      have hnone : req.action = none := by
        have hsome := hrequired.action
        simpa using hsome
      simp [DecideReq.facts, SearchReq.facts, SearchReq.filled,
        SearchReq.unnamed, hid, hnone]

/-- A caller that may name anyone is refused nothing. -/
theorem admitReq_of_pep {doing : String}
    (hpep : refuseUnlessPep caller doing = none) (req : DecideReq) :
    admitReq caller req = none := by
  cases caller with
  | none => simp [admitReq, admitNamed, refuseUnlessAdmits,
      refuseDescriptionUnlessPep, refuseUnlessPep]
  | some who =>
      have hbind : who.bind = .any := by
        cases hbind : who.bind with
        | any => rfl
        | selfOnly => simp [refuseUnlessPep, hbind] at hpep
      simp [admitReq, admitNamed, refuseUnlessAdmits,
        refuseDescriptionUnlessPep, refuseUnlessPep, Authenticated.admits,
        hbind]

/-- Whoever may search may ask of every candidate. -/
theorem admitReq_filled (hrequired : req.Requires what)
    (hadmitted : admitSearch caller (req.unnamed what) what = none)
    (candidate : String) :
    admitReq caller (req.filled what candidate) = none := by
  rw [admitSearch, Option.orElse_eq_orElse, Option.orElse_eq_or,
    Option.or_eq_none_iff] at hadmitted
  by_cases hwhat : what = .subject
  · rw [if_pos hwhat] at hadmitted
    exact admitReq_of_pep hadmitted.1 _
  · rw [admitReq, facts_filled hrequired hwhat]
    exact hadmitted.2

theorem merged_filled (hrequired : req.Requires what) (candidate : String) :
    (req.filled what candidate).merged now = req.merged now := by
  cases what with
  | subject =>
      obtain ⟨action, haction⟩ :=
        Option.isSome_iff_exists.mp (hrequired.action.mpr (by simp))
      simp [DecideReq.merged, SearchReq.merged, SearchReq.filled, haction]
  | resource =>
      obtain ⟨action, haction⟩ :=
        Option.isSome_iff_exists.mp (hrequired.action.mpr (by simp))
      simp [DecideReq.merged, SearchReq.merged, SearchReq.filled, haction]
  | action =>
      have hnone : req.action = none := by
        have hsome := hrequired.action
        simpa using hsome
      simp [DecideReq.merged, SearchReq.merged, SearchReq.filled, hnone]

/-- Only a candidate's own name may be too long. -/
theorem nameTooLarge_filled (hrequired : req.Requires what)
    (candidate : String) :
    nameTooLarge (req.filled what candidate).names = none ↔
      candidate.utf8ByteSize ≤ 1024 := by
  have hnames := hrequired.names
  simp only [SearchReq.names, List.forall_mem_cons, List.not_mem_nil,
    false_imp_iff, implies_true, and_true] at hnames
  obtain ⟨hty, hid, hresourceTy, hresourceId, haction⟩ := hnames
  rw [nameTooLarge_eq_none]
  cases what with
  | subject =>
      obtain ⟨action, hsome⟩ :=
        Option.isSome_iff_exists.mp (hrequired.action.mpr (by simp))
      rw [hsome] at haction
      simp [DecideReq.names, SearchReq.filled, hsome, hty, hresourceTy,
        hresourceId]
      exact fun _ => haction
  | resource =>
      obtain ⟨action, hsome⟩ :=
        Option.isSome_iff_exists.mp (hrequired.action.mpr (by simp))
      rw [hsome] at haction
      simp [DecideReq.names, SearchReq.filled, hsome, hty, hresourceTy,
        hid]
      exact fun _ => haction
  | action =>
      simp [DecideReq.names, SearchReq.filled, hty, hid, hresourceTy,
        hresourceId]

theorem bindMission_of_null {status : String → MissionStatus}
    {dir : Graph.Directory} {subjectId action : String} {ctx : Value}
    (hnull : ∀ value, ctx.get "mission" = some value → value = .null) :
    bindMission status dir false subjectId action ctx now =
      if action = "MoveMoney" then
        .deny ["context.mission is required for MoveMoney"]
      else .none := by
  rw [bindMission, filter_of_null hnull]
  rfl

theorem takeDecisionSubject_of_null {found : Option Value}
    {subjectId : String} {owner : Option String}
    (hnull : ∀ value, found = some value → value = .null) :
    takeDecisionSubject host found subjectId owner = .ok none := by
  rw [takeDecisionSubject, filter_of_null hnull]

/-- What no Mission changes of a member that is not a flag. -/
theorem get_applyBind {bind : MissionBind} {ctx : Value} {action key : String}
    (hbind : ∀ reference, bind ≠ .ok reference) (hkey : key ≠ "consent")
    (hkey' : key ≠ "human_approved") :
    (applyBind bind ctx action).2.2.get key = ctx.get key := by
  cases bind with
  | none => rfl
  | ok reference => exact absurd rfl (hbind reference)
  | deny errors =>
      simp [applyBind, stripClientApprovalFlags, Value.get_remove, hkey,
        hkey']

theorem get_merged (key : String)
    (hkey : key ∉ ["action", "resource", "subject", "asserted_by", "now"]) :
    (req.merged now).get key = (req.context.getD []).get key := by
  simp only [List.mem_cons, List.not_mem_nil, or_false, not_or] at hkey
  simp [SearchReq.merged, get_kernelContext, hkey]

/-- A search whose context names no challenge and no decision subject. -/
structure SearchReq.Quiet (req : SearchReq) : Prop where
  challenge : ¬ Names (req.context.getD []) "subject_side_challenge"
  decisionSubject : ¬ Names (req.context.getD []) "decision_subject"

theorem null_of_merged {key : String}
    (hkey : key ∉ ["action", "resource", "subject", "asserted_by", "now"])
    (hnames : ¬ Names (req.context.getD []) key) {value : Value}
    (hvalue : (req.merged now).get key = some value) : value = .null := by
  rw [get_merged key hkey] at hvalue
  exact null_of_not_names hnames hvalue

theorem bindOf_filled (hs : Searches host caller req what found now)
    (candidate : String) :
    host.bindOf (req.filled what candidate) now =
      if (req.filled what candidate).action.name = "MoveMoney" then
        .deny ["context.mission is required for MoveMoney"]
      else .none := by
  rw [Host.bindOf, hs.missionless, merged_filled hs.required]
  exact bindMission_of_null fun value hvalue =>
    null_of_merged (by decide) hs.unbound hvalue

/-- A request with no Mission to bind and no party to answer is prepared. -/
theorem prepare_of_quiet {asked : DecideReq} {asserted : Option AssertedBy}
    (hnames : nameTooLarge asked.names = none)
    (hcontext : prepareContext host caller (asked.context.getD [])
      (described asked.subject.properties)
      (described asked.resource.properties)
      (described asked.action.properties) =
        .ok (asked.merged now, now, asserted))
    (hbind : ∀ reference, host.bindOf asked now ≠ .ok reference)
    (hnull : ∀ key ∈ ["subject_side_challenge", "decision_subject"],
      ∀ value, (asked.merged now).get key = some value → value = .null) :
    ∃ p, prepare host caller asked = .ok p ∧ p.challenge = none ∧
      p.now = now := by
  obtain ⟨ctx, hctx⟩ : ∃ ctx, ctx = ((applyBind (host.bindOf asked now)
      (asked.merged now) asked.action.name).2.2).remove "mission" := ⟨_, rfl⟩
  have hget : ∀ key ∈ ["subject_side_challenge", "decision_subject"],
      ∀ value, ctx.get key = some value → value = .null := by
    intro key hkey value hvalue
    have hnull := hnull key hkey value
    simp only [List.mem_cons, List.not_mem_nil, or_false] at hkey
    rcases hkey with rfl | rfl
    all_goals
      rw [hctx, Value.get_remove_ne (by decide),
        get_applyBind hbind (by decide) (by decide)] at hvalue
      exact hnull hvalue
  have hchallenge := filter_of_null (hget "subject_side_challenge" (by simp))
  have hsubject : takeDecisionSubject host
      ((ctx.remove "subject_side_challenge").get "decision_subject")
      asked.subject.id (host.ownerOf asked.resource.id) = .ok none := by
    rw [Value.get_remove_ne (by decide)]
    exact takeDecisionSubject_of_null (hget "decision_subject" (by simp))
  subst hctx
  rw [Host.bindOf] at hsubject hchallenge
  cases hprepare : prepare host caller asked with
  | error refusal =>
      simp only [prepare, hnames, hcontext, bind, Except.bind, hsubject,
        Except.mapError] at hprepare
      cases hprepare
  | ok p =>
      simp only [prepare, hnames, hcontext, bind, Except.bind, hsubject,
        Except.mapError] at hprepare
      cases hprepare
      exact ⟨_, rfl, hchallenge, rfl⟩

theorem prepare_filled (hs : Searches host caller req what found now)
    (hquiet : req.Quiet) {candidate : String}
    (hname : candidate.utf8ByteSize ≤ 1024) :
    ∃ p, prepare host caller (req.filled what candidate) = .ok p ∧
      p.challenge = none ∧ p.now = now := by
  have hmerged : (req.filled what candidate).merged now = req.merged now :=
    merged_filled hs.required candidate
  apply @prepare_of_quiet _ _ _ _ host caller now
    (req.filled what candidate) (assertedBy caller)
  · exact (nameTooLarge_filled hs.required candidate).mpr hname
  · rw [hmerged, prepareContext, hs.clock]
    rw [DecideReq.merged] at hmerged
    simp only [hmerged, hs.fits]
    rfl
  · intro reference
    rw [bindOf_filled hs]
    split_ifs <;> simp
  · intro key hkey value hvalue
    rw [hmerged] at hvalue
    simp only [List.mem_cons, List.not_mem_nil, or_false] at hkey
    rcases hkey with rfl | rfl
    · exact null_of_merged (by decide) hquiet.challenge hvalue
    · exact null_of_merged (by decide) hquiet.decisionSubject hvalue

theorem evaluateOne_of_quiet {asked : DecideReq} {p : Prepared}
    (hprepare : prepare host caller asked = .ok p)
    (hchallenge : p.challenge = none) :
    ∃ evaluated, evaluateOne host caller asked = .ok evaluated ∧
      evaluated.decision = (decidePrepared host p).decision := by
  cases hevaluated : evaluateOne host caller asked with
  | error refusal =>
      simp only [evaluateOne, hprepare, bind, Except.bind, answerChallenge,
        hchallenge] at hevaluated
      cases hevaluated
  | ok evaluated =>
      simp only [evaluateOne, hprepare, bind, Except.bind, answerChallenge,
        hchallenge] at hevaluated
      cases hevaluated
      exact ⟨_, rfl, rfl⟩

/-- A candidate is decided true where its name fits, it needs no Mission and
the kernel allows it. -/
theorem decidesTrue_filled (hs : Searches host caller req what found now)
    (hquiet : req.Quiet) (candidate : String) :
    host.DecidesTrue caller (req.filled what candidate) ↔
      candidate.utf8ByteSize ≤ 1024 ∧
        (req.filled what candidate).action.name ≠ "MoveMoney" ∧
        host.Allows (req.filled what candidate)
          (withoutOwnKeys (req.merged now)) := by
  have hgranted := admitReq_filled hs.required hs.admitted candidate
  have hmerged : (req.filled what candidate).merged now = req.merged now :=
    merged_filled hs.required candidate
  have hbind := bindOf_filled hs candidate
  by_cases hname : candidate.utf8ByteSize ≤ 1024
  · obtain ⟨p, hprepare, hchallenge, hnow⟩ := prepare_filled hs hquiet hname
    have hprepares := prepares_of_ok hprepare
    have herrors := hprepares.errors
    have hctx := hprepares.ctx
    rw [hnow, hmerged, hbind] at herrors hctx
    have hevaluated := evaluateOne_of_quiet hprepare hchallenge
    have hdecides : host.DecidesTrue caller (req.filled what candidate) ↔
        (decidePrepared host p).decision = true := by
      obtain ⟨evaluated, hok, hdecision⟩ := hevaluated
      constructor
      · rintro ⟨_, other, hother, hallow⟩
        rw [hok, Except.ok.injEq] at hother
        rw [← hdecision, hother, hallow]
      · intro hallow
        exact ⟨hgranted, evaluated, hok, hdecision.trans hallow⟩
    rw [hdecides]
    by_cases hmoney : (req.filled what candidate).action.name = "MoveMoney"
    · rw [if_pos hmoney] at herrors
      simp [decidePrepared, herrors, applyBind, hmoney]
    · rw [if_neg hmoney] at herrors hctx
      simp only [decidePrepared, herrors, applyBind, List.isEmpty_nil,
        if_true, hprepares.subject, hprepares.action, hprepares.resource,
        hctx, Host.Allows, Host.subjectOf, Host.resourceOf]
      simp [hname, hmoney]
  · have hrefused : ∃ refusal,
        nameTooLarge (req.filled what candidate).names = some refusal := by
      rw [← nameTooLarge_filled hs.required candidate,
        Option.eq_none_iff_forall_not_mem] at hname
      push Not at hname
      exact hname
    obtain ⟨refusal, hrefused⟩ := hrefused
    simp only [hname, false_and, iff_false]
    rintro ⟨_, evaluated, hok, _⟩
    rw [evaluateOne, prepare, hrefused] at hok
    cases hok

/-! ## The candidates that are found -/

theorem refusedWithoutAMission_of_null {subjectId action : String}
    {ctx : Value}
    (hnull : ∀ value, ctx.get "mission" = some value → value = .null) :
    refusedWithoutAMission host subjectId action ctx now =
      decide (action = "MoveMoney") := by
  rw [refusedWithoutAMission, bindMission_of_null hnull]
  by_cases hmoney : action = "MoveMoney"
  · simp [hmoney]
  · simp [hmoney]

theorem null_of_asked (hs : Searches host caller req what found now)
    {value : Value} (hvalue : (req.asked now).get "mission" = some value) :
    value = .null := by
  rw [SearchReq.asked, Value.get_remove_ne (by decide),
    Value.get_remove_ne (by decide)] at hvalue
  exact null_of_merged (by decide) hs.unbound hvalue

theorem null_of_pruned (hs : Searches host caller req what found now)
    {action : String} {value : Value}
    (hvalue : (host.kernel.pruneUndeclaredContext action
      (req.asked now)).get "mission" = some value) : value = .null := by
  obtain ⟨members, hmembers⟩ : ∃ members : Map,
      req.asked now = .object members := ⟨_, rfl⟩
  have hasked : ∀ value, members.get "mission" = some value →
      value = .null := by
    intro value hvalue
    rw [← Value.get_object, ← hmembers] at hvalue
    exact null_of_asked hs hvalue
  rw [hmembers] at hvalue
  exact null_of_prune hasked hvalue

theorem modelType_of_known (hknown : host.Known req what) :
    (what ≠ .resource → host.modelType req.subject.ty = "Principal") ∧
      (what ≠ .subject → host.modelType req.resource.ty = "Resource") := by
  unfold Host.Known known at hknown
  cases what <;> simp at hknown <;> simp [hknown]

theorem mem_searchSubjects {kernel : Kernel S P E} {engine : Engine S P E C}
    {action : String} {resource : EntityRef} {ctx : Value} {id : String} :
    id ∈ (kernel.searchSubjects engine action resource ctx).map EntityRef.id ↔
      id ∈ kernel.directory.principals.keys ∧
        (kernel.check engine ⟨"Principal", id⟩ action resource
          ctx).decision = true := by
  simp [Kernel.searchSubjects]

theorem mem_searchResources {kernel : Kernel S P E} {engine : Engine S P E C}
    {action : String} {subject : EntityRef} {ctx : Value} {id : String} :
    id ∈ (kernel.searchResources engine subject action ctx).map
        EntityRef.id ↔
      id ∈ kernel.directory.resources.keys ∧
        (kernel.check engine subject action ⟨"Resource", id⟩
          ctx).decision = true := by
  simp [Kernel.searchResources]

theorem mem_searchActions {kernel : Kernel S P E} {engine : Engine S P E C}
    {subject resource : EntityRef} {ctx : Value} {name : String} :
    name ∈ kernel.searchActions engine subject resource ctx ↔
      name ∈ kernel.contextShape.keys ∧
        (kernel.check engine subject name resource
          (kernel.pruneUndeclaredContext name ctx)).decision = true := by
  simp [Kernel.searchActions]

/-- The searched side's id has no part in what is known. -/
theorem known_unnamed :
    known host what
      ⟨host.modelType (req.unnamed what).subject.ty,
        (req.unnamed what).subject.id.getD ""⟩
      ⟨host.modelType (req.unnamed what).resource.ty,
        (req.unnamed what).resource.id.getD ""⟩ = true ↔
      host.Known req what := by
  cases what <;> rfl

/-- A candidate is found where the input is known, no Mission is needed and
the kernel allows it. -/
theorem mem_ids_iff (hs : Searches host caller req what found now)
    {candidate : String} (hcandidate : candidate ∈ host.candidates what) :
    candidate ∈ found.ids ↔ host.Known req what ∧
      (req.filled what candidate).action.name ≠ "MoveMoney" ∧
      host.Allows (req.filled what candidate) (req.asked now) := by
  have hids := hs.ids
  have hunnamed := @known_unnamed _ _ _ _ host req what
  have hnull := fun action value =>
    @null_of_pruned _ _ _ _ host caller req what found now hs action value
  by_cases hknown : host.Known req what
  · have hty := modelType_of_known hknown
    cases what with
    | subject =>
        obtain ⟨action, haction⟩ :=
          Option.isSome_iff_exists.mp (hs.required.action.mpr (by simp))
        simp only [enumerate, haction, Option.map_some, Option.getD_some,
          refusedWithoutAMission_of_null (hnull _), hunnamed.mpr hknown]
          at hids
        by_cases hmoney : action.name = "MoveMoney"
        · simp [hids, hmoney, SearchReq.filled, haction]
        · simp only [hmoney, decide_false, Bool.not_true, if_false,
            Bool.false_eq_true] at hids
          have hmem : candidate ∈ host.kernel.directory.principals.keys :=
            hcandidate
          rw [hids, mem_searchSubjects]
          simp [hmem, hknown, SearchReq.filled, haction, hmoney,
            Host.Allows, Host.subjectOf, Host.resourceOf,
            SearchReq.unnamed, hty.1]
    | resource =>
        obtain ⟨action, haction⟩ :=
          Option.isSome_iff_exists.mp (hs.required.action.mpr (by simp))
        simp only [enumerate, haction, Option.map_some, Option.getD_some,
          refusedWithoutAMission_of_null (hnull _), hunnamed.mpr hknown]
          at hids
        by_cases hmoney : action.name = "MoveMoney"
        · simp [hids, hmoney, SearchReq.filled, haction]
        · simp only [hmoney, decide_false, Bool.not_true, if_false,
            Bool.false_eq_true] at hids
          have hmem : candidate ∈ host.kernel.directory.resources.keys :=
            hcandidate
          rw [hids, mem_searchResources]
          simp [hmem, hknown, SearchReq.filled, haction, hmoney,
            Host.Allows, Host.subjectOf, Host.resourceOf,
            SearchReq.unnamed, hty.2]
    | action =>
        simp only [enumerate, hunnamed.mpr hknown, if_true] at hids
        rw [hids, List.mem_filter, mem_searchActions,
          refusedWithoutAMission_of_null fun value => null_of_asked hs]
        have hmem : candidate ∈ host.kernel.contextShape.keys := hcandidate
        simp [hmem, hknown, SearchReq.filled, Host.Allows, Host.subjectOf,
          Host.resourceOf, SearchReq.unnamed, and_comm]
  · have hnone : found.ids = [] := by
      rw [hids]
      have hfalse := hunnamed.not.mpr hknown
      rw [Bool.not_eq_true] at hfalse
      cases what <;> simp [enumerate, hfalse] <;> split_ifs <;> rfl
    simp [hnone, hknown]

/-! ## Where the two agree -/

/-- The action's schema declares the `null` a context names no Mission by. -/
def Host.DeclaresNull (host : Host S P E C) (req : SearchReq)
    (action : String) : Prop :=
  ((req.context.getD []).get "mission").isSome ∧
    (((host.kernel.contextShape[action]?).getD Declared.onlyNow).member
      "mission").isSome

/-- What a search and its evaluations leave to each other. -/
structure Host.Concurs (host : Host S P E C) (req : SearchReq) (what : For)
    (now : UInt64) : Prop where
  scanned : ¬ host.Known req what → ∀ candidate ∈ host.candidates what,
    (req.filled what candidate).action.name ≠ "MoveMoney" →
    candidate.utf8ByteSize ≤ 1024 →
    ¬ host.Allows (req.filled what candidate) (withoutOwnKeys (req.merged now))
  named : host.Known req what → ∀ candidate ∈ host.candidates what,
    (req.filled what candidate).action.name ≠ "MoveMoney" →
    host.Allows (req.filled what candidate) (req.asked now) →
    candidate.utf8ByteSize ≤ 1024
  unread : host.Known req what → ∀ candidate ∈ host.candidates what,
    (req.filled what candidate).action.name ≠ "MoveMoney" →
    candidate.utf8ByteSize ≤ 1024 →
    host.DeclaresNull req (req.filled what candidate).action.name →
    (host.Allows (req.filled what candidate) (req.asked now) ↔
      host.Allows (req.filled what candidate)
        (withoutOwnKeys (req.merged now)))

theorem withoutOwnKeys_merged :
    withoutOwnKeys (req.merged now) = (req.asked now).remove "mission" := by
  rw [withoutOwnKeys, SearchReq.asked,
    Value.remove_comm _ "subject_side_challenge" "mission",
    Value.remove_comm _ "decision_subject" "mission",
    Value.remove_comm _ "decision_subject" "subject_side_challenge"]

/-- Without a declared `null` the kernel is asked the same. -/
theorem allows_asked_iff {asked : DecideReq}
    (hnull : ¬ host.DeclaresNull req asked.action.name) :
    host.Allows asked (req.asked now) ↔
      host.Allows asked (withoutOwnKeys (req.merged now)) := by
  have hsame : host.kernel.pruneUndeclaredContext asked.action.name
      ((req.asked now).remove "mission") =
        host.kernel.pruneUndeclaredContext asked.action.name
          (req.asked now) := by
    cases hmission : (req.context.getD []).get "mission" with
    | none =>
        rw [Value.remove_of_get_eq_none]
        rw [SearchReq.asked, Value.get_remove_ne (by decide),
          Value.get_remove_ne (by decide), get_merged "mission" (by decide)]
        exact hmission
    | some mission =>
        have hundeclared : ((host.kernel.contextShape[
            asked.action.name]?).getD Declared.onlyNow).member "mission" =
              none := by
          by_contra hdeclared
          apply hnull
          exact ⟨by simp [hmission], Option.isSome_iff_ne_none.mpr hdeclared⟩
        exact Declared.prune_remove hundeclared
  rw [withoutOwnKeys_merged, Host.Allows, Host.Allows, hsame]

/-- A search finds just what its evaluations decide true where the input it
does not scan for is allowed nothing, what it finds has a name an evaluation
takes, and a `null` that names no Mission has no bearing. -/
theorem search_agrees_iff_concurs
    (hsearched : searched host caller req what = .ok found)
    (hquiet : req.Quiet) :
    ∃ now, host.clock = some now ∧
      ((∀ candidate ∈ host.candidates what,
        (candidate ∈ found.ids ↔
          host.DecidesTrue caller (req.filled what candidate))) ↔
        host.Concurs req what now) := by
  obtain ⟨now, hs⟩ := searches_of_ok hsearched
  refine ⟨now, hs.clock, ?_⟩
  constructor
  · intro hagree
    have hlisted : ∀ candidate ∈ host.candidates what,
        (req.filled what candidate).action.name ≠ "MoveMoney" →
        (host.Known req what ∧
            host.Allows (req.filled what candidate) (req.asked now) ↔
          candidate.utf8ByteSize ≤ 1024 ∧
            host.Allows (req.filled what candidate)
              (withoutOwnKeys (req.merged now))) := by
      intro candidate hcandidate hmoney
      have hcandidate' := hagree candidate hcandidate
      rw [mem_ids_iff hs hcandidate, decidesTrue_filled hs hquiet]
        at hcandidate'
      simpa [hmoney] using hcandidate'
    exact {
      scanned := fun hunknown candidate hcandidate hmoney hname hallows =>
        hunknown ((hlisted candidate hcandidate hmoney).mpr
          ⟨hname, hallows⟩).1
      named := fun hknown candidate hcandidate hmoney hallows =>
        ((hlisted candidate hcandidate hmoney).mp ⟨hknown, hallows⟩).1
      unread := fun hknown candidate hcandidate hmoney hname _ => by
        have hiff := hlisted candidate hcandidate hmoney
        simpa [hknown, hname] using hiff }
  · intro hconcurs candidate hcandidate
    rw [mem_ids_iff hs hcandidate, decidesTrue_filled hs hquiet]
    by_cases hmoney : (req.filled what candidate).action.name = "MoveMoney"
    · simp [hmoney]
    by_cases hknown : host.Known req what
    · have hsame : candidate.utf8ByteSize ≤ 1024 →
          (host.Allows (req.filled what candidate) (req.asked now) ↔
            host.Allows (req.filled what candidate)
              (withoutOwnKeys (req.merged now))) := by
        intro hname
        by_cases hnull : host.DeclaresNull req
            (req.filled what candidate).action.name
        · exact hconcurs.unread hknown candidate hcandidate hmoney hname hnull
        · exact allows_asked_iff hnull
      have hnamed := hconcurs.named hknown candidate hcandidate hmoney
      constructor
      · intro hlisted
        have hname := hnamed hlisted.2.2
        exact ⟨hname, hmoney, (hsame hname).mp hlisted.2.2⟩
      · intro hdecided
        exact ⟨hknown, hmoney, (hsame hdecided.1).mpr hdecided.2.2⟩
    · have hnone := hconcurs.scanned hknown candidate hcandidate hmoney
      constructor
      · intro hlisted
        exact absurd hlisted.1 hknown
      · intro hdecided
        exact absurd hdecided.2.2 (hnone hdecided.1)

/-! ## Samples -/

def sampleSearch (subjectId : String) : SearchReq where
  subject := { ty := "Principal", id := some subjectId }
  action := some { name := "Read" }
  resource := { ty := "Resource" }

/-- What a sample server finds. -/
def sampleFound (model : Model Unit (List Cedar.Policy)) (req : SearchReq)
    (what : For) : Option (List String) :=
  (Kernel.new (declaredEngine sampleFloats) model).toOption.bind
    fun kernel => (searched (sampleHost kernel) none req what).toOption.map
      Searched.ids

theorem sample_finds :
    sampleFound sampleModel (sampleSearch "bot") .resource =
      some ["acct"] := by
  decide +kernel

theorem search_agrees_iff_concurs_sample :
    ∃ (kernel : Kernel Unit (List Cedar.Policy) Cedar.Entities)
      (found : Searched) (now : UInt64),
      searched (sampleHost kernel) none (sampleSearch "bot") .resource =
        .ok found ∧ found.ids = ["acct"] ∧
      ((∀ candidate ∈ (sampleHost kernel).candidates .resource,
        (candidate ∈ found.ids ↔ (sampleHost kernel).DecidesTrue none
          ((sampleSearch "bot").filled .resource candidate))) ↔
        (sampleHost kernel).Concurs (sampleSearch "bot") .resource now) := by
  obtain ⟨kernel, _, hfound⟩ := Option.bind_eq_some_iff.mp sample_finds
  obtain ⟨found, hsearched, hids⟩ := Option.map_eq_some_iff.mp hfound
  have hquiet : (sampleSearch "bot").Quiet := {
    challenge := by
      rintro ⟨value, hvalue, _⟩
      cases hvalue
    decisionSubject := by
      rintro ⟨value, hvalue, _⟩
      cases hvalue }
  obtain ⟨now, _, hagree⟩ :=
    search_agrees_iff_concurs (toOption_eq_some.mp hsearched) hquiet
  exact ⟨kernel, found, now, toOption_eq_some.mp hsearched, hids, hagree⟩

/-- The sample model under a policy that permits whatever is asked. -/
def openModel : Model Unit (List Cedar.Policy) :=
  ⟨(), [⟨"P-any", .permit, none, []⟩], sampleEntities⟩

/-- A search for what is not in the directory, its evaluation, and whether
the candidate is one. -/
def openAnswer : Option (List String × Bool × Bool) :=
  (Kernel.new (declaredEngine sampleFloats) openModel).toOption.bind
    fun kernel => do
      let found ← (searched (sampleHost kernel) none (sampleSearch "ghost")
        .resource).toOption
      let evaluated ← (evaluateOne (sampleHost kernel) none
        ((sampleSearch "ghost").filled .resource "acct")).toOption
      return (found.ids, evaluated.decision,
        decide ("acct" ∈ (sampleHost kernel).candidates .resource))

theorem open_answers : openAnswer = some ([], true, true) := by
  decide +kernel

/-- A principal the directory does not know is allowed by its policies what a
search for it does not find. -/
theorem search_skips_allowed :
    ∃ (kernel : Kernel Unit (List Cedar.Policy) Cedar.Entities)
      (found : Searched),
      Kernel.new (declaredEngine sampleFloats) openModel = .ok kernel ∧
      searched (sampleHost kernel) none (sampleSearch "ghost") .resource =
        .ok found ∧
      "acct" ∈ (sampleHost kernel).candidates .resource ∧
      ¬ ("acct" ∈ found.ids ↔ (sampleHost kernel).DecidesTrue none
        ((sampleSearch "ghost").filled .resource "acct")) := by
  obtain ⟨kernel, hkernel, hanswer⟩ :=
    Option.bind_eq_some_iff.mp open_answers
  obtain ⟨found, hsearched, hanswer⟩ := Option.bind_eq_some_iff.mp hanswer
  obtain ⟨evaluated, hevaluated, hanswer⟩ :=
    Option.bind_eq_some_iff.mp hanswer
  obtain ⟨hids, hallow, hmem⟩ : found.ids = [] ∧
      evaluated.decision = true ∧
      decide ("acct" ∈ (sampleHost kernel).candidates .resource) = true := by
    simpa using hanswer
  have hdecides : (sampleHost kernel).DecidesTrue none
      ((sampleSearch "ghost").filled .resource "acct") :=
    ⟨rfl, evaluated, toOption_eq_some.mp hevaluated, hallow⟩
  refine ⟨kernel, found, toOption_eq_some.mp hkernel,
    toOption_eq_some.mp hsearched, of_decide_eq_true hmem, ?_⟩
  rw [hids]
  simpa using hdecides

end Decern.Decide
