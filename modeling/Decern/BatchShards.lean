import Decern.BatchAdmission
import Mathlib.Tactic

/-!
# What a batch gains on either backend

On shards each record of an exchange is committed to one of them after what the
others did by then, and nothing else is.  With the law of an exchange that is
what it serves and what the ledger has gained for it.
-/

namespace Decern

open Serde (Value)

variable {P : Platform}

/-! ## Commits to shards -/

/-- A record committed to a shard, after what the others did by then. -/
structure ShardVisit where
  meanwhile : (String → Shard) → String → Shard
  name : String
  cursor : HeadCursor
  record : RecordOut

namespace ShardVisit

variable (P) in
def visited (shards : String → Shard) (visit : ShardVisit) :
    String → Shard :=
  let met := visit.meanwhile shards
  Function.update met visit.name
    ((met visit.name).commit visit.cursor (visit.record.line P))

variable (P) in
/-- The shards after one commit after the other. -/
def after (shards : String → Shard) (visits : List ShardVisit) :
    String → Shard :=
  StateRun.run (visited P) shards visits

end ShardVisit

/-- A meeting's commit is made in its first section or, after more from the
others, in its second. -/
def Meeting.Commits (meeting : Meeting) (visit : ShardVisit) : Prop :=
  visit.meanwhile = meeting.before ∨
    visit.meanwhile = fun shards => meeting.between (meeting.before shards)

theorem ShardedLedger.appendUnder_commit {ledger : ShardedLedger P}
    {name : String} {shard next : Shard} {spans : List KeySpan}
    {entry : Entry} {revise : Entry → Except LedgerError Entry}
    {record : RecordOut}
    (happend : ledger.appendUnder name shard spans entry revise =
      (.ok record, next)) :
    ∃ cursor, next = shard.commit cursor (record.line P) := by
  unfold appendUnder at happend
  split at happend
  case h_1 => cases happend
  case h_2 =>
    split at happend
    case h_1 => cases happend
    case h_2 hsealed =>
      cases happend
      exact ⟨_, (sealEntry_eq_ok hsealed).2.2⟩

theorem ShardedLedger.appendRevised_commit {ledger : ShardedLedger P}
    {meeting : Meeting} {shards after : String → Shard} {name : String}
    {entry : Entry} {record : RecordOut}
    (happend : ledger.appendRevised meeting (meeting.before shards) name
      entry = (after, .ok record)) :
    ∃ visit, meeting.Commits visit ∧ visit.record = record ∧
      after = visit.visited P shards := by
  unfold appendRevised at happend
  split at happend
  case h_1 outcome next hhead =>
    rcases committedUnder_eq_ok happend with ⟨rfl, rfl⟩
    rcases Option.map_eq_some_iff.mp hhead with ⟨spans, _, hunder⟩
    rcases appendUnder_commit hunder with ⟨cursor, rfl⟩
    exact ⟨⟨meeting.before, name, cursor, record⟩, Or.inl rfl, rfl, rfl⟩
  case h_2 =>
    split at happend
    case h_1 => cases happend
    case h_2 =>
      rcases committedUnder_eq_ok happend with ⟨houtcome, rfl⟩
      rw [appendThroughHistory_eq] at houtcome ⊢
      split at houtcome
      case h_1 => cases houtcome
      case h_2 parsed hparsed =>
        rcases appendUnder_commit (Prod.ext houtcome rfl) with
          ⟨cursor, hnext⟩
        refine ⟨⟨fun shards => meeting.between (meeting.before shards), name,
          cursor, record⟩, Or.inr rfl, rfl, ?_⟩
        simp only [ShardVisit.visited]
        rw [← hnext]

/-- One decision on shards commits its record and nothing else. -/
theorem recordDecision_commit {meeting : Meeting} {ledger : ShardedLedger P}
    {shards : String → Shard} {after : LedgerBackend P}
    {shard : Decide.RecordShard} {entry : Entry} {record : RecordOut}
    (hrecord : recordDecision meeting (.sharded ledger shards) shard entry =
      (after, .ok record)) :
    ∃ visit, meeting.Commits visit ∧ visit.record = record ∧
      after = .sharded ledger (visit.visited P shards) := by
  unfold recordDecision at hrecord
  simp only at hrecord
  split at hrecord
  case h_1 => cases hrecord
  case h_2 name hname =>
    rcases ShardedLedger.appendRevised_commit
      (Prod.ext rfl (Prod.mk.inj hrecord).2) with
      ⟨visit, hcommits, hsame, hafter⟩
    refine ⟨visit, hcommits, hsame, ?_⟩
    exact (Prod.mk.inj hrecord).1.symm.trans
      (congrArg (LedgerBackend.sharded ledger) hafter)

/-! ## Exchanges -/

/-- The backend is on shards still, and these gained a commit for each of the
records, in order, in meetings among these. -/
def LedgerBackend.Committed (backend : LedgerBackend P)
    (meetings : List Meeting) (records : List RecordOut)
    (after : LedgerBackend P) : Prop :=
  ∀ ledger shards, backend = .sharded ledger shards →
    ∃ met visits, met.Sublist meetings ∧
      List.Forall₂ Meeting.Commits met visits ∧
      visits.map ShardVisit.record = records ∧
      after = .sharded ledger (ShardVisit.after P shards visits)

theorem recordEach_committed {ledger : ShardedLedger P}
    {shards : String → Shard} {after : LedgerBackend P}
    {landed all : List RecordOut} {recordings : List Recording}
    (heach : recordEach (.sharded ledger shards) landed recordings =
      (after, all, .ok ())) :
    ∃ visits, List.Forall₂ Meeting.Commits
        (recordings.map Recording.meeting) visits ∧
      all = landed ++ visits.map ShardVisit.record ∧
      after = .sharded ledger (ShardVisit.after P shards visits) := by
  induction recordings generalizing shards landed with
  | nil =>
      cases heach
      exact ⟨[], .nil, by simp, rfl⟩
  | cons recording rest ih =>
      unfold recordEach at heach
      split at heach
      case h_1 => cases heach
      case h_2 next record hrecord =>
        rcases recordDecision_commit hrecord with
          ⟨visit, hcommits, rfl, rfl⟩
        rcases ih heach with ⟨visits, hall, rfl, rfl⟩
        exact ⟨visit :: visits, .cons hcommits hall, by simp, rfl⟩

namespace Batch

open Decide (Authenticated)

variable {S Q E C : Type} {caller : Option Authenticated} {top : BatchReq}
  {semantic : Semantic} {moments : ℕ → Moment S Q E C}

/-- An item leaves the shards alone or commits its record. -/
theorem recordItem_committed {meeting : Meeting} {ledger : ShardedLedger P}
    {shards : String → Shard} {after : LedgerBackend P}
    {progress next : Progress} {a : Answer} {s : Settled}
    (hitem : recordItem semantic meeting (.sharded ledger shards) progress
      a = (after, .ok (s, next))) :
    (s.landed = none ∧ after = .sharded ledger shards) ∨
      ∃ visit, meeting.Commits visit ∧ s.landed = some visit.record ∧
        after = .sharded ledger (visit.visited P shards) := by
  unfold recordItem at hitem
  split at hitem
  case h_1 =>
    cases hitem
    exact Or.inl ⟨rfl, rfl⟩
  case h_2 =>
    split at hitem
    case h_1 => cases hitem
    case h_2 record hdecision =>
      cases hitem
      rcases recordDecision_commit hdecision with
        ⟨visit, hcommits, rfl, hafter⟩
      exact Or.inr ⟨visit, hcommits, rfl, hafter⟩
  case h_3 =>
    cases hitem
    exact Or.inl ⟨rfl, rfl⟩

/-- The meetings of the items from `index` on. -/
def itemMeetings (moments : ℕ → Moment S Q E C) (index count : ℕ) :
    List Meeting :=
  (List.range' index count).map fun index => (moments index).meeting

theorem runItems_committed {ledger : ShardedLedger P}
    {shards : String → Shard} {after : LedgerBackend P}
    {landed all : List RecordOut} {progress final : Progress} {index : ℕ}
    {items : List Value}
    (hrun : runItems caller top semantic moments (.sharded ledger shards)
      landed progress index items = (after, all, .ok final)) :
    ∃ met visits, met.Sublist (itemMeetings moments index items.length) ∧
      List.Forall₂ Meeting.Commits met visits ∧
      all = landed ++ visits.map ShardVisit.record ∧
      after = .sharded ledger (ShardVisit.after P shards visits) := by
  induction items generalizing shards landed progress index with
  | nil =>
      cases hrun
      exact ⟨[], [], List.nil_sublist _, .nil, by simp, rfl⟩
  | cons item rest ih =>
      unfold runItems at hrun
      simp only at hrun
      split at hrun
      case h_1 => cases hrun
      case h_2 next s moved hitem =>
        have hstep : ∃ met visits,
            met.Sublist [(moments index).meeting] ∧
            List.Forall₂ Meeting.Commits met visits ∧
            s.landed.toList = visits.map ShardVisit.record ∧
            next = .sharded ledger (ShardVisit.after P shards visits) := by
          rcases recordItem_committed hitem with
            ⟨hnone, hnext⟩ | ⟨visit, hcommits, hsome, hnext⟩
          · exact ⟨[], [], List.nil_sublist _, .nil, by simp [hnone], hnext⟩
          · exact ⟨[_], [visit], .refl _, .cons hcommits .nil,
              by simp [hsome], hnext⟩
        rcases hstep with ⟨met, visits, hsub, hcommits, hlanded, rfl⟩
        split at hrun
        case isTrue =>
          cases hrun
          exact ⟨met, visits, hsub.trans (by simp [itemMeetings, List.range']),
            hcommits, by rw [hlanded], rfl⟩
        case isFalse =>
          rcases ih hrun with ⟨later, more, hmore, hothers, hall, rfl⟩
          refine ⟨met ++ later, visits ++ more, hsub.append hmore,
            List.rel_append hcommits hothers, ?_, ?_⟩
          · rw [hall, hlanded, List.map_append, List.append_assoc]
          · rw [ShardVisit.after, ShardVisit.after, ShardVisit.after,
              StateRun.run_append]

theorem map_answersFrom (index : ℕ) (items : List Value) :
    (answersFrom P caller top moments index items).map Prod.fst =
      itemMeetings moments index items.length := by
  induction items generalizing index with
  | nil => rfl
  | cons item rest ih =>
      rw [answersFrom, List.map_cons, ih]
      rfl

theorem map_recordingsOf (answers : List (Meeting × Answer)) :
    ((recordingsOf answers).map Recording.meeting).Sublist
      (answers.map Prod.fst) := by
  induction answers with
  | nil => exact List.nil_sublist _
  | cons answered rest ih =>
      rw [recordingsOf_cons, List.map_append, List.map_cons]
      cases answered.2.record with
      | none => exact ih.cons _
      | some record => exact ih.cons_cons _

/-- An exchange that is served committed its records and nothing else. -/
theorem runExchange_committed {closing : Closing}
    {backend after : LedgerBackend P} {items : List Value}
    {records : List RecordOut} {results : List Value}
    (hrun : runExchange caller top semantic moments closing backend items =
      (after, records, .evaluations results)) :
    backend.Committed (itemMeetings moments 0 items.length) records
      after := by
  rintro ledger shards rfl
  unfold runExchange at hrun
  rcases hitems : runItems caller top semantic moments
    (.sharded ledger shards) [] {} 0 items with ⟨next, landed, outcome⟩
  rw [hitems] at hrun
  cases outcome with
  | error error => cases hrun
  | ok progress =>
      by_cases hall : semantic = .executeAll
      · subst hall
        rw [runItems_executeAll] at hitems
        cases hitems
        simp only [List.nil_append] at hrun
        split at hrun
        case isTrue =>
          cases hrun
          exact ⟨[], [], List.nil_sublist _, .nil, rfl, rfl⟩
        case isFalse =>
          split at hrun
          case h_1 => cases hrun
          case h_2 hrecorded =>
            cases hrun
            rcases recordEach_committed hrecorded with
              ⟨visits, hcommits, rfl, rfl⟩
            refine ⟨_, visits, ?_, hcommits, by simp, rfl⟩
            rw [← map_answersFrom]
            exact map_recordingsOf _
      · rcases runItems_stopping hall hitems with ⟨_, _, hok, _⟩
        have hdecided : progress.decided = [] := by
          rw [(hok progress rfl).2]
        rcases runItems_committed hitems with
          ⟨met, visits, hsub, hcommits, rfl, rfl⟩
        simp only [hdecided, List.isEmpty_nil, if_true] at hrun
        cases hrun
        exact ⟨met, visits, hsub, hcommits, by simp, rfl⟩

/-- An exchange has one semantic and one list of items. -/
theorem Under.unique {quoted : String → String} {other : Semantic}
    {items others : List Value}
    (hunder : Under quoted caller top semantic items)
    (hother : Under quoted caller top other others) :
    semantic = other ∧ items = others :=
  ⟨Except.ok.inj (hunder.1.symm.trans hother.1),
    Option.some.inj (hunder.2.1.symm.trans hother.2.1)⟩

theorem evaluateAll_committed {quoted : String → String} {closing : Closing}
    {backend : LedgerBackend P} {items : List Value} {results : List Value}
    (hunder : Under quoted caller top semantic items)
    (hresults : (evaluateAll quoted caller top moments closing
      backend).2.2 = .evaluations results) :
    backend.Committed (itemMeetings moments 0 items.length)
      (evaluateAll quoted caller top moments closing backend).2.1
      (evaluateAll quoted caller top moments closing backend).1 := by
  rcases evaluateAll_cases quoted caller top moments closing backend with
    ⟨refusal, hrun⟩ | ⟨req, hnone, _, _⟩ |
      ⟨named, found, hnamed, hrun⟩
  · rw [hrun] at hresults
    cases hresults
  · rw [hunder.2.1] at hnone
    exact absurd hnone hunder.2.2.1
  · rcases hnamed.unique hunder with ⟨rfl, rfl⟩
    rw [hrun] at hresults ⊢
    exact runExchange_committed
      (Prod.ext rfl (Prod.ext rfl hresults))

/-! ## The law of an exchange -/

def threeReads : List Value :=
  [readItem openSubject, readItem (.array [.string "Principal",
    .string "ghost"]), readItem openSubject]

def threeReadsBatch : BatchReq where
  evaluations := some threeReads
  options := some ⟨some "deny_on_first_deny"⟩

def threeReadsRun
    (kernel : Kernel Unit (List Cedar.Policy) Cedar.Entities) :
    LedgerBackend samplePlatform × List RecordOut × Response :=
  evaluateAll id none threeReadsBatch
    (fun _ => ⟨Decide.sampleHost kernel, quietMeeting⟩) ⟨id, none⟩
    (.single "ledger" newLedger)

def Response.answers : Response → Option ℕ
  | .evaluations results => some results.length
  | _ => none

/-- Behind a trusted front every item is admitted. -/
theorem admitNamed_none (found : Decide.Facts) :
    Decide.admitNamed none found = none := by
  rcases found with ⟨_ | _, _ | _, _ | _⟩ <;> rfl

theorem threeReads_run :
    ((Kernel.new (declaredEngine sampleFloats) sampleModel).toOption.map
      fun kernel => ((threeReadsRun kernel).2.1.map fun record =>
        record.entry.decision, (threeReadsRun kernel).2.2.answers)) =
      some ([true, false], some 2) := by
  decide +kernel

end Batch

end Decern
