import Decern.BatchEvaluation
import Decern.LedgerRuns
import Decern.ShardedRuns
import Mathlib.Tactic

/-!
# What a batch serves and records

An exchange is the plain evaluation of its items one after the other, each
answered as it was recorded, to the first answer it stops on.  Recording the
decisions of a whole exchange at once comes to the same.
-/

namespace Decern

open ByteText (Bytes newline)
open Serde (Value)

variable {P : Platform}

/-! ## One record -/

/-- A record of an entry, settled as the registry stood under the lock. -/
def Meeting.Records (meeting : Meeting) (entry : Entry)
    (record : RecordOut) : Prop :=
  ∃ settled, (settle meeting.registry entry = .ok settled ∨
      settle meeting.laterRegistry entry = .ok settled) ∧
    record.entry = settled.withSeq record.entry.seq

theorem Ledger.append_eq_ok {path : String} {ledger after : Ledger}
    {file next : Bytes} {entry : Entry} {fault : Option WriteFault}
    {record : RecordOut}
    (happend : ledger.append P path file entry fault =
      (after, next, .ok record)) :
    record = ledger.sealNext P entry ∧
      next = file ++ (recordLine P record ++ [newline]) := by
  rcases ledger.append_cases P path file entry fault with
    ⟨_, hresult⟩ | ⟨_, hresult⟩ | ⟨_, written, err, hresult⟩
  · rw [happend] at hresult
    cases hresult
  · rw [happend] at hresult
    cases hresult
    exact ⟨rfl, rfl⟩
  · rw [happend] at hresult
    cases hresult

theorem ShardedLedger.appendUnder_eq_ok {ledger : ShardedLedger P}
    {name : String} {shard : Shard} {spans : List KeySpan} {entry : Entry}
    {revise : Entry → Except LedgerError Entry} {record : RecordOut}
    {next : Shard}
    (happend : ledger.appendUnder name shard spans entry revise =
      (.ok record, next)) :
    ∃ settled, revise entry = .ok settled ∧
      record.entry = settled.withSeq shard.nextSeq := by
  unfold appendUnder at happend
  split at happend
  case h_1 => cases happend
  case h_2 settled hsettled =>
    split at happend
    case h_1 => cases happend
    case h_2 found after hsealed =>
      cases happend
      rcases sealEntry_eq_ok hsealed with ⟨_, hrecord, _⟩
      refine ⟨settled, hsettled, ?_⟩
      rw [hrecord]
      rfl

theorem committedUnder_eq_ok {shards after : String → Shard} {name : String}
    {outcome : Except LedgerError RecordOut} {next : Shard}
    {fault : Option StoreFault} {record : RecordOut}
    (hcommitted : committedUnder shards name outcome next fault =
      (after, .ok record)) :
    outcome = .ok record ∧ after = Function.update shards name next := by
  cases fault with
  | none =>
      cases hcommitted
      exact ⟨rfl, rfl⟩
  | some fault => cases hcommitted

theorem ShardedLedger.appendRevised_eq_ok {ledger : ShardedLedger P}
    {meeting : Meeting} {shards after : String → Shard} {name : String}
    {entry : Entry} {record : RecordOut}
    (happend : ledger.appendRevised meeting shards name entry =
      (after, .ok record)) : meeting.Records entry record := by
  unfold appendRevised at happend
  split at happend
  case h_1 outcome next hhead =>
    have houtcome := (committedUnder_eq_ok happend).1
    subst houtcome
    rcases Option.map_eq_some_iff.mp hhead with ⟨spans, _, hunder⟩
    rcases appendUnder_eq_ok hunder with ⟨settled, hsettled, hentry⟩
    refine ⟨settled, Or.inl hsettled, ?_⟩
    rw [hentry]
    rfl
  case h_2 =>
    split at happend
    case h_1 => cases happend
    case h_2 =>
      have houtcome := (committedUnder_eq_ok happend).1
      rw [appendThroughHistory_eq] at houtcome
      split at houtcome
      case h_1 => cases houtcome
      case h_2 parsed hparsed =>
        rcases appendUnder_eq_ok (Prod.ext houtcome rfl) with
          ⟨settled, hsettled, hentry⟩
        refine ⟨settled, Or.inr hsettled, ?_⟩
        rw [hentry]
        rfl

theorem recordDecision_eq_ok {meeting : Meeting}
    {backend after : LedgerBackend P} {shard : Decide.RecordShard}
    {entry : Entry} {record : RecordOut}
    (hrecord : recordDecision meeting backend shard entry =
      (after, .ok record)) : meeting.Records entry record := by
  cases backend with
  | single path state =>
      unfold recordDecision at hrecord
      simp only at hrecord
      split at hrecord
      case isTrue => cases hrecord
      case isFalse =>
        split at hrecord
        case h_1 => cases hrecord
        case h_2 settled hsettled =>
          have happend := (Prod.mk.inj hrecord).2
          have hsealed := (Ledger.append_eq_ok
            (Prod.ext rfl (Prod.ext rfl happend))).1
          refine ⟨settled, Or.inl hsettled, ?_⟩
          rw [hsealed]
          rfl
  | sharded ledger shards =>
      unfold recordDecision at hrecord
      simp only at hrecord
      split at hrecord
      case h_1 => cases hrecord
      case h_2 name hname =>
        exact ShardedLedger.appendRevised_eq_ok
          (Prod.ext rfl (Prod.mk.inj hrecord).2)

/-! ## Many records -/

/-- Records of the first of some decisions, in order. -/
def RecordsOf (recordings : List Recording) (records : List RecordOut) :
    Prop :=
  List.Forall₂ (fun recording record =>
      recording.meeting.Records recording.entry record)
    (recordings.take records.length) records

theorem RecordsOf.nil (recordings : List Recording) :
    RecordsOf recordings [] := by
  simp [RecordsOf]

theorem RecordsOf.cons {recording : Recording} {rest : List Recording}
    {record : RecordOut} {records : List RecordOut}
    (hrecord : recording.meeting.Records recording.entry record)
    (hrest : RecordsOf rest records) :
    RecordsOf (recording :: rest) (record :: records) := by
  unfold RecordsOf
  rw [List.length_cons, List.take_succ_cons]
  exact .cons hrecord hrest

theorem RecordsOf.length_le {recordings : List Recording}
    {records : List RecordOut} (hrecords : RecordsOf recordings records) :
    records.length ≤ recordings.length := by
  have hlength := hrecords.length_eq
  rw [List.length_take] at hlength
  omega

theorem recordEach_records {backend after : LedgerBackend P}
    {landed all : List RecordOut} {recordings : List Recording}
    {outcome : Except LedgerError Unit}
    (heach : recordEach backend landed recordings = (after, all, outcome)) :
    ∃ records, all = landed ++ records ∧ RecordsOf recordings records ∧
      (outcome = .ok () → records.length = recordings.length) := by
  induction recordings generalizing backend landed with
  | nil =>
      cases heach
      exact ⟨[], by simp, RecordsOf.nil _, fun _ => rfl⟩
  | cons recording rest ih =>
      unfold recordEach at heach
      split at heach
      case h_1 next error _ =>
        cases heach
        exact ⟨[], by simp, RecordsOf.nil _, fun hok => by cases hok⟩
      case h_2 next record hrecord =>
        rcases ih heach with ⟨records, hall, hrecords, hlength⟩
        refine ⟨record :: records, ?_,
          .cons (recordDecision_eq_ok hrecord) hrecords, ?_⟩
        · rw [hall]
          simp
        · intro hok
          simpa using hlength hok

/-- The records a loop of appends made are of the first entries. -/
theorem Ledger.appendEach_records {path : String} {ledger after : Ledger}
    {file next : Bytes} {landed all : List RecordOut}
    {entries : List (Entry × Option WriteFault)}
    {outcome : Except LedgerError Unit}
    (heach : Ledger.appendEach P path ledger file landed entries =
      (after, next, all, outcome)) :
    ∃ records, all = landed ++ records ∧
      List.Forall₂ (fun entry record =>
        record.entry = entry.1.withSeq record.entry.seq)
        (entries.take records.length) records ∧
      (outcome = .ok () → records.length = entries.length) := by
  induction entries generalizing ledger file landed with
  | nil =>
      cases heach
      exact ⟨[], by simp, by simp, fun _ => rfl⟩
  | cons first rest ih =>
      rcases first with ⟨entry, fault⟩
      unfold Ledger.appendEach at heach
      split at heach
      case h_1 =>
        cases heach
        exact ⟨[], by simp, by simp, fun hok => by cases hok⟩
      case h_2 advanced written record happend =>
        rcases ih heach with ⟨records, hall, hrecords, hlength⟩
        refine ⟨record :: records, ?_, ?_, ?_⟩
        · rw [hall]
          simp
        · rw [List.length_cons, List.take_succ_cons]
          refine .cons ?_ hrecords
          rw [(Ledger.append_eq_ok happend).1]
          rfl
        · intro hok
          simpa using hlength hok

theorem recordsOf_settled {recordings : List Recording}
    {settled : List (Entry × Option WriteFault)} {records : List RecordOut}
    (hsettled : settleEach recordings = .ok settled)
    (hrecords : List.Forall₂ (fun entry record =>
      record.entry = entry.1.withSeq record.entry.seq)
      (settled.take records.length) records) :
    RecordsOf recordings records ∧ settled.length = recordings.length := by
  induction recordings generalizing settled records with
  | nil =>
      have hnone : settled = [] := (Except.ok.inj hsettled).symm
      subst hnone
      cases records with
      | nil => exact ⟨RecordsOf.nil _, rfl⟩
      | cons record records => cases hrecords
  | cons recording rest ih =>
      unfold settleEach at hsettled ih
      rw [List.mapM_cons] at hsettled
      rcases Serde.bind_eq_ok.mp hsettled with ⟨first, hfirst, hsettled⟩
      rcases Serde.bind_eq_ok.mp hsettled with ⟨others, hothers, hsettled⟩
      cases hsettled
      cases hentry : settle recording.meeting.registry recording.entry with
      | error error =>
          rw [hentry] at hfirst
          cases hfirst
      | ok entry =>
          rw [hentry] at hfirst
          cases hfirst
          cases records with
          | nil =>
              have hnone := @ih others [] hothers (by simp)
              exact ⟨RecordsOf.nil _, by simp [hnone.2]⟩
          | cons record records =>
              rw [List.length_cons, List.take_succ_cons] at hrecords
              cases hrecords with
              | cons hrecord hrest =>
                  rcases ih hothers hrest with ⟨hof, hlength⟩
                  exact ⟨.cons ⟨entry, Or.inl hentry, hrecord⟩ hof,
                    by simp [hlength]⟩

theorem recordDecisions_records {backend after : LedgerBackend P}
    {meanwhile : SingleLedger → SingleLedger} {recordings : List Recording}
    {syncFault : Option String} {records : List RecordOut}
    {outcome : Except LedgerError Unit}
    (hall : recordDecisions backend meanwhile recordings syncFault =
      (after, records, outcome)) :
    RecordsOf recordings records ∧
      (outcome = .ok () → records.length = recordings.length) := by
  cases backend with
  | sharded ledger shards =>
      rcases recordEach_records hall with ⟨found, hfound, hrecords, hlength⟩
      rw [List.nil_append] at hfound
      subst hfound
      exact ⟨hrecords, hlength⟩
  | single path state =>
      unfold recordDecisions at hall
      simp only at hall
      split at hall
      case isTrue =>
        cases hall
        exact ⟨RecordsOf.nil _, fun hok => by cases hok⟩
      case isFalse =>
        split at hall
        case h_1 =>
          cases hall
          exact ⟨RecordsOf.nil _, fun hok => by cases hok⟩
        case h_2 settled hsettled =>
          rcases heach : Ledger.appendEach P path
            { (meanwhile state).ledger with sync := false }
            (meanwhile state).file [] settled with
            ⟨last, file, found, inner⟩
          rcases Ledger.appendEach_records heach with
            ⟨more, hmore, hforall, hlength⟩
          rw [List.nil_append] at hmore
          subst hmore
          rcases recordsOf_settled hsettled hforall with ⟨hof, hcount⟩
          have hresult : records = found ∧
              (outcome = .ok () → inner = .ok ()) := by
            have hpair := (Prod.mk.inj hall).2
            unfold Ledger.appendAll at hpair
            rw [heach] at hpair
            simp only at hpair
            split at hpair
            case isTrue =>
              cases syncFault with
              | none =>
                  cases hpair
                  exact ⟨rfl, id⟩
              | some err =>
                  cases hpair
                  exact ⟨rfl, fun hok => by cases hok⟩
            case isFalse =>
              cases hpair
              exact ⟨rfl, id⟩
          rw [hresult.1]
          exact ⟨hof, fun hok => by rw [hlength (hresult.2 hok), hcount]⟩

/-! ## One item after the other -/

namespace Batch

open Decide (Authenticated DecideReq admitNamed admitReq evaluateOne)

variable {S Q E C : Type}

/-- An item's answer as it is served: as it was recorded, if it was decided. -/
def Answer.Settles (meeting : Meeting) (a : Answer) (s : Settled) : Prop :=
  match a.record with
  | none => s = ⟨a.decision, a.body, none⟩
  | some (_, entry) => ∃ record, meeting.Records entry record ∧
      s = ⟨record.entry.decision, evaluationBody record.entry.decision
        record.entry.reasons a.errors, some record⟩

variable (P) in
def answerAt (caller : Option Authenticated) (top : BatchReq)
    (moments : ℕ → Moment S Q E C) (index : ℕ) (item : Value) : Answer :=
  answer P (moments index).host caller top index item
    (inheritsOversize P top item)

section Plain

variable (P) (caller : Option Authenticated) (top : BatchReq)
  (semantic : Semantic) (moments : ℕ → Moment S Q E C)

/-- The items from `index` on are served one after the other, to the first
answer the exchange stops on. -/
inductive Serves : ℕ → List Value → List Settled → Prop
  | all (index) : Serves index [] []
  | stops {index item items s}
      (hsettles : (answerAt P caller top moments index item).Settles
        (moments index).meeting s)
      (hstops : semantic.stops s.decision = true) :
      Serves index (item :: items) [s]
  | next {index item items s rest}
      (hsettles : (answerAt P caller top moments index item).Settles
        (moments index).meeting s)
      (hgoes : semantic.stops s.decision = false)
      (hrest : Serves (index + 1) items rest) :
      Serves index (item :: items) (s :: rest)

/-- The first of the items were answered so, and the exchange went on. -/
inductive Begins : ℕ → List Value → List Settled → Prop
  | nil (index items) : Begins index items []
  | cons {index item items s rest}
      (hsettles : (answerAt P caller top moments index item).Settles
        (moments index).meeting s)
      (hgoes : semantic.stops s.decision = false)
      (hrest : Begins (index + 1) items rest) :
      Begins index (item :: items) (s :: rest)

end Plain

variable {caller : Option Authenticated} {top : BatchReq}
  {semantic : Semantic} {moments : ℕ → Moment S Q E C}

/-- An exchange that stops on nothing serves every item. -/
theorem Serves.length_eq {index : ℕ} {items : List Value}
    {settled : List Settled}
    (hserves : Serves P caller top .executeAll moments index items settled) :
    settled.length = items.length := by
  induction hserves with
  | all => rfl
  | stops _ hstops => cases hstops
  | next _ _ _ ih => simpa using ih

/-- The records a settled list landed, in order. -/
def landedOf (settled : List Settled) : List RecordOut :=
  settled.filterMap Settled.landed

theorem landedOf_cons (s : Settled) (rest : List Settled) :
    landedOf (s :: rest) = s.landed.toList ++ landedOf rest := by
  unfold landedOf
  cases hlanded : s.landed <;> simp [hlanded]

theorem recordItem_eq_ok (hsemantic : semantic ≠ .executeAll)
    {meeting : Meeting} {backend after : LedgerBackend P}
    {progress next : Progress} {a : Answer} {s : Settled}
    (hitem : recordItem semantic meeting backend progress a =
      (after, .ok (s, next))) :
    a.Settles meeting s ∧ next = progress := by
  unfold recordItem at hitem
  split at hitem
  case h_1 => exact absurd rfl hsemantic
  case h_2 shard entry _ hrecord =>
    split at hitem
    case h_1 => cases hitem
    case h_2 recorded record hdecision =>
      cases hitem
      refine ⟨?_, rfl⟩
      unfold Answer.Settles
      rw [hrecord]
      exact ⟨record, recordDecision_eq_ok hdecision, rfl⟩
  case h_3 hrecord =>
    cases hitem
    refine ⟨?_, rfl⟩
    unfold Answer.Settles
    rw [hrecord]

/-- Where the exchange may stop early, items are recorded as they are
answered. -/
theorem runItems_stopping (hsemantic : semantic ≠ .executeAll)
    {backend after : LedgerBackend P} {landed all : List RecordOut}
    {progress : Progress} {index : ℕ} {items : List Value}
    {outcome : Except LedgerError Progress}
    (hrun : runItems caller top semantic moments backend landed progress
      index items = (after, all, outcome)) :
    ∃ settled, all = landed ++ landedOf settled ∧
      (∀ final, outcome = .ok final →
        Serves P caller top semantic moments index items settled ∧
        final = { progress with
          results := progress.results ++ settled.map Settled.body }) ∧
      ∀ error, outcome = .error error →
        Begins P caller top semantic moments index items settled := by
  induction items generalizing backend landed progress index with
  | nil =>
      cases hrun
      refine ⟨[], by simp [landedOf], ?_, fun error herror => by cases herror⟩
      rintro final ⟨⟩
      exact ⟨.all index, by simp⟩
  | cons item rest ih =>
      unfold runItems at hrun
      simp only at hrun
      split at hrun
      case h_1 next error hitem =>
        cases hrun
        refine ⟨[], by simp [landedOf], ?_, fun _ _ => .nil index _⟩
        intro final hfinal
        cases hfinal
      case h_2 next s moved hitem =>
        rcases recordItem_eq_ok hsemantic hitem with ⟨hsettles, rfl⟩
        split at hrun
        case isTrue hstops =>
          cases hrun
          refine ⟨[s], ?_, ?_, fun error herror => by cases herror⟩
          · rw [landedOf_cons]
            simp [landedOf]
          rintro final ⟨⟩
          exact ⟨.stops hsettles hstops, rfl⟩
        case isFalse hgoes =>
          have hgoes := Bool.eq_false_of_not_eq_true hgoes
          rcases ih hrun with ⟨settled, hall, hok, herror⟩
          refine ⟨s :: settled, ?_, ?_, ?_⟩
          · rw [hall, landedOf_cons, List.append_assoc]
          · intro final hfinal
            rcases hok final hfinal with ⟨hserves, hresults⟩
            refine ⟨.next hsettles hgoes hserves, ?_⟩
            rw [hresults]
            simp [Progress.push]
          · intro error hfailed
            exact .cons hsettles hgoes (herror error hfailed)

/-! ## All at the end -/

variable (P caller top moments) in
/-- The answers from `index` on, with what each is recorded in. -/
def answersFrom : ℕ → List Value → List (Meeting × Answer)
  | _, [] => []
  | index, item :: rest =>
      ((moments index).meeting, answerAt P caller top moments index item) ::
        answersFrom (index + 1) rest

def recordingsOf (answers : List (Meeting × Answer)) : List Recording :=
  answers.filterMap fun answered => answered.2.record.map fun record =>
    ⟨answered.1, record.1, record.2⟩

/-- Where the decided answers stand, from `index` on. -/
def decidedFrom : ℕ → List (Meeting × Answer) → List (ℕ × List String)
  | _, [] => []
  | index, (_, a) :: rest =>
      (a.record.map fun _ => (index, a.errors)).toList ++
        decidedFrom (index + 1) rest

/-- The answers with their records, to the first that has none. -/
def settleAll : List (Meeting × Answer) → List RecordOut → List Settled
  | [], _ => []
  | (_, a) :: rest, records =>
      match a.record, records with
      | none, records => ⟨a.decision, a.body, none⟩ :: settleAll rest records
      | some _, [] => []
      | some _, record :: records =>
          ⟨record.entry.decision, evaluationBody record.entry.decision
            record.entry.reasons a.errors, some record⟩ ::
            settleAll rest records

theorem runItems_executeAll (backend : LedgerBackend P)
    (landed : List RecordOut) (progress : Progress) (index : ℕ)
    (items : List Value) :
    runItems caller top .executeAll moments backend landed progress index
        items =
      (backend, landed, .ok
        { results := progress.results ++
            (answersFrom P caller top moments index items).map
              fun answered => answered.2.body
          decided := progress.decided ++
            recordingsOf (answersFrom P caller top moments index items)
          decidedItems := progress.decidedItems ++
            decidedFrom progress.results.length
              (answersFrom P caller top moments index items) }) := by
  induction items generalizing progress index with
  | nil => simp [runItems, answersFrom, recordingsOf, decidedFrom]
  | cons item rest ih =>
      unfold runItems
      simp only
      have hanswer : answer P (moments index).host caller top index item
          (inheritsOversize P top item) =
          answerAt P caller top moments index item := rfl
      rw [hanswer]
      cases hrecord : (answerAt P caller top moments index item).record with
      | none =>
          simp only [recordItem, hrecord, Option.toList_none,
            List.append_nil, Semantic.stops, Bool.false_eq_true, if_false, ih]
          simp [Progress.push, answersFrom, recordingsOf, decidedFrom,
            hrecord]
      | some decided =>
          simp only [recordItem, hrecord, Option.toList_none,
            List.append_nil, Semantic.stops, Bool.false_eq_true, if_false, ih]
          simp [Progress.push, answersFrom, recordingsOf, decidedFrom,
            hrecord]

theorem recordingsOf_cons (meeting : Meeting) (a : Answer)
    (rest : List (Meeting × Answer)) :
    recordingsOf ((meeting, a) :: rest) =
      (a.record.map fun record =>
        Recording.mk meeting record.1 record.2).toList ++
        recordingsOf rest := by
  unfold recordingsOf
  cases hrecord : a.record <;> simp [hrecord]

/-- The answers put back where they belong are those settled in turn. -/
theorem servedAsRecorded_eq (earlier : List Value)
    {answers : List (Meeting × Answer)} {records : List RecordOut}
    (hlength : records.length = (recordingsOf answers).length) :
    servedAsRecorded
        (earlier ++ answers.map fun answered => answered.2.body)
        (decidedFrom earlier.length answers) records =
      earlier ++ (settleAll answers records).map Settled.body := by
  induction answers generalizing earlier records with
  | nil => simp [servedAsRecorded, decidedFrom, settleAll]
  | cons answered rest ih =>
      rcases answered with ⟨meeting, a⟩
      rw [recordingsOf_cons] at hlength
      cases hrecord : a.record with
      | none =>
          simp only [hrecord, Option.map_none, Option.toList_none,
            List.nil_append] at hlength
          have hrest := ih (earlier ++ [a.body]) hlength
          rw [List.length_append, List.length_singleton] at hrest
          simpa [decidedFrom, settleAll, hrecord] using hrest
      | some decided =>
          simp only [hrecord, Option.map_some, Option.toList_some,
            List.singleton_append, List.length_cons] at hlength
          cases records with
          | nil => cases hlength
          | cons record records =>
              have hlength := Nat.succ.inj hlength
              let body := evaluationBody record.entry.decision
                record.entry.reasons a.errors
              have hrest := ih (earlier ++ [body]) hlength
              rw [List.length_append, List.length_singleton] at hrest
              -- the first record is served where its item stands
              simpa [servedAsRecorded, decidedFrom, settleAll, hrecord, body]
                using hrest

theorem landedOf_settleAll {answers : List (Meeting × Answer)}
    {records : List RecordOut}
    (hlength : records.length ≤ (recordingsOf answers).length) :
    landedOf (settleAll answers records) = records := by
  induction answers generalizing records with
  | nil =>
      have hnone : records = [] := by simpa [recordingsOf] using hlength
      simp [settleAll, landedOf, hnone]
  | cons answered rest ih =>
      rcases answered with ⟨meeting, a⟩
      rw [recordingsOf_cons] at hlength
      cases hrecord : a.record with
      | none =>
          simp only [hrecord, Option.map_none, Option.toList_none,
            List.nil_append] at hlength
          simp only [settleAll, hrecord, landedOf_cons, Option.toList_none,
            List.nil_append]
          exact ih hlength
      | some decided =>
          cases records with
          | nil => simp [settleAll, hrecord, landedOf]
          | cons record records =>
              simp only [hrecord, Option.map_some, Option.toList_some,
                List.singleton_append, List.length_cons,
                Nat.succ_le_succ_iff] at hlength
              simp only [settleAll, hrecord, landedOf_cons,
                Option.toList_some, List.singleton_append]
              rw [ih hlength]

/-- Recorded together, the items come to what they come to one by one. -/
theorem settleAll_begins {index : ℕ} {items : List Value}
    {records : List RecordOut}
    (hrecords : RecordsOf
      (recordingsOf (answersFrom P caller top moments index items))
      records) :
    Begins P caller top .executeAll moments index items
        (settleAll (answersFrom P caller top moments index items) records) ∧
      (records.length =
          (recordingsOf
            (answersFrom P caller top moments index items)).length →
        Serves P caller top .executeAll moments index items
          (settleAll (answersFrom P caller top moments index items)
            records)) := by
  induction items generalizing index records with
  | nil => exact ⟨.nil index _, fun _ => .all index⟩
  | cons item rest ih =>
      rw [answersFrom, recordingsOf_cons] at hrecords
      rw [answersFrom, recordingsOf_cons]
      cases hrecord : (answerAt P caller top moments index item).record with
      | none =>
          simp only [hrecord, Option.map_none, Option.toList_none,
            List.nil_append] at hrecords ⊢
          rcases ih hrecords with ⟨hbegins, hserves⟩
          have hsettles : (answerAt P caller top moments index item).Settles
              (moments index).meeting
              ⟨(answerAt P caller top moments index item).decision,
                (answerAt P caller top moments index item).body, none⟩ := by
            unfold Answer.Settles
            rw [hrecord]
          simp only [settleAll, hrecord]
          exact ⟨.cons hsettles rfl hbegins, fun hlength =>
            .next hsettles rfl (hserves hlength)⟩
      | some decided =>
          simp only [hrecord, Option.map_some, Option.toList_some,
            List.singleton_append] at hrecords ⊢
          cases records with
          | nil =>
              simp only [settleAll, hrecord]
              refine ⟨.nil index _, fun hlength => ?_⟩
              cases hlength
          | cons record records =>
              unfold RecordsOf at hrecords
              rw [List.length_cons, List.take_succ_cons] at hrecords
              cases hrecords with
              | cons hfirst hothers =>
                  rcases ih hothers with ⟨hbegins, hserves⟩
                  simp only [settleAll, hrecord]
                  have hsettles :
                      (answerAt P caller top moments index item).Settles
                        (moments index).meeting
                        ⟨record.entry.decision, evaluationBody
                          record.entry.decision record.entry.reasons
                          (answerAt P caller top moments index item).errors,
                          some record⟩ := by
                    unfold Answer.Settles
                    rw [hrecord]
                    exact ⟨record, hfirst, rfl⟩
                  refine ⟨.cons hsettles rfl hbegins, fun hlength => ?_⟩
                  exact .next hsettles rfl (hserves (by simpa using hlength))

end Batch

end Decern
