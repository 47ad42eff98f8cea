import Decern.BatchExecution
import Decern.LedgerRecovery
import Mathlib.Tactic

/-!
# The law of a batch

What an exchange returns is what its items come to one after the other, and
the ledger has gained the records of exactly those, whoever else appended in
between.
-/

namespace Decern

open ByteText (Bytes newline)
open LineText (joined)
open Serde (Value)

variable {P : Platform}

/-! ## What a file gains -/

/-- The lock held once: what the others had done by then, and the entries that
were recorded. -/
structure Visit where
  meanwhile : SingleLedger → SingleLedger
  entries : List Entry

namespace SingleLedger

variable (P) in
/-- What the others left, and after it the records' lines. -/
def visited (state : SingleLedger) (visit : Visit) : SingleLedger :=
  let met := visit.meanwhile state
  { met with
    ledger := met.ledger.advanceAll P visit.entries
    file := met.file ++
      joined newline (met.ledger.inFlight P visit.entries) }

variable (P) in
/-- The ledger after one visit after the other. -/
def after (state : SingleLedger) (visits : List Visit) : SingleLedger :=
  StateRun.run (visited P) state visits

variable (P) in
/-- The records they appended. -/
def landed : SingleLedger → List Visit → List RecordOut
  | _, [] => []
  | state, visit :: rest =>
      (visit.meanwhile state).ledger.sealAll P visit.entries ++
        (state.visited P visit).landed rest

variable (P) in
/-- The file holds what the visits left and, once a write failed, a beginning
of the line it would have written. -/
def Left (state : SingleLedger) (visits : List Visit) (failed : Prop)
    (last : SingleLedger) : Prop :=
  ∃ left, last.file = (state.after P visits).file ++ left ∧
    (left = [] ∨ failed ∧ ∃ entry, left <+: recordLine P
      ((state.after P visits).ledger.sealNext P entry) ++ [newline])

variable {state last : SingleLedger} {visits : List Visit} {failed : Prop}

theorem left_after : state.Left P visits failed (state.after P visits) :=
  ⟨[], by simp, Or.inl rfl⟩

theorem Left.imp {other : Prop} (hleft : state.Left P visits failed last)
    (hfailed : failed → other) : state.Left P visits other last := by
  rcases hleft with ⟨left, hfile, hnone | ⟨hfail, hline⟩⟩
  · exact ⟨left, hfile, Or.inl hnone⟩
  · exact ⟨left, hfile, Or.inr ⟨hfailed hfail, hline⟩⟩

@[simp] theorem landed_singleton (state : SingleLedger) (visit : Visit) :
    state.landed P [visit] =
      (visit.meanwhile state).ledger.sealAll P visit.entries :=
  List.append_nil _

theorem left_singleton {meanwhile : SingleLedger → SingleLedger}
    {entries : List Entry} (left : Bytes)
    (hfile : last.file = (meanwhile state).file ++
      joined newline ((meanwhile state).ledger.inFlight P entries) ++ left)
    (hleft : left = [] ∨ failed ∧ ∃ entry, left <+: recordLine P
      (((meanwhile state).ledger.advanceAll P entries).sealNext P entry) ++
        [newline]) :
    state.Left P [⟨meanwhile, entries⟩] failed last :=
  ⟨left, hfile, hleft⟩

theorem landed_append (state : SingleLedger) (visits more : List Visit) :
    state.landed P (visits ++ more) =
      state.landed P visits ++ (state.after P visits).landed P more := by
  induction visits generalizing state with
  | nil => rfl
  | cons visit rest ih =>
      simp only [List.cons_append, landed, ih, List.append_assoc]
      rfl

theorem Left.append {more : List Visit}
    (hleft : (state.after P visits).Left P more failed last) :
    state.Left P (visits ++ more) failed last := by
  rcases hleft with ⟨left, hfile, hline⟩
  rw [after, after, ← StateRun.run_append] at hfile hline
  exact ⟨left, hfile, hline⟩

end SingleLedger

/-- A loop of appends writes the lines of its first entries, and of the next
one at most a beginning. -/
theorem Ledger.appendEach_left {path : String} {ledger after : Ledger}
    {file next : Bytes} {landed all : List RecordOut}
    {entries : List (Entry × Option WriteFault)}
    {outcome : Except LedgerError Unit}
    (heach : Ledger.appendEach P path ledger file landed entries =
      (after, next, all, outcome)) :
    ∃ written left, all = landed ++ ledger.sealAll P written ∧
      next = file ++ joined newline (ledger.inFlight P written) ++ left ∧
      (left = [] ∨ (∃ error, outcome = .error error) ∧ ∃ entry,
        left <+: recordLine P
          ((ledger.advanceAll P written).sealNext P entry) ++ [newline]) := by
  induction entries generalizing ledger file landed with
  | nil =>
      cases heach
      exact ⟨[], [], by simp [Ledger.sealAll],
        by simp [Ledger.inFlight, Ledger.sealAll], Or.inl rfl⟩
  | cons first rest ih =>
      rcases first with ⟨entry, fault⟩
      rcases ledger.append_cases P path file entry fault with
        ⟨_, hresult⟩ | ⟨_, hresult⟩ | ⟨_, count, err, hresult⟩ <;>
        rw [Ledger.appendEach, hresult] at heach
      · cases heach
        exact ⟨[], [], by simp [Ledger.sealAll],
          by simp [Ledger.inFlight, Ledger.sealAll], Or.inl rfl⟩
      · rcases ih heach with ⟨written, left, hall, hnext, hleft⟩
        refine ⟨entry :: written, left, ?_, ?_, hleft⟩
        · simp [hall, Ledger.sealAll]
        · simp [hnext, Ledger.inFlight, Ledger.sealAll]
      · cases heach
        refine ⟨[], (recordLine P (ledger.sealNext P entry) ++
            [newline]).take count, by simp [Ledger.sealAll],
          by simp [Ledger.inFlight, Ledger.sealAll],
          Or.inr ⟨⟨_, rfl⟩, entry, List.take_prefix _ _⟩⟩

/-- Whether a handle syncs does not show in what it seals. -/
theorem Ledger.sealNext_sync (ledger : Ledger) (sync : Bool)
    (written : List Entry) (entry : Entry) :
    ({ ledger with sync } : Ledger).sealAll P written =
        ledger.sealAll P written ∧
      (({ ledger with sync } : Ledger).advanceAll P written).sealNext P
          entry =
        (ledger.advanceAll P written).sealNext P entry := by
  induction written generalizing ledger with
  | nil => exact ⟨rfl, rfl⟩
  | cons first rest ih =>
      rcases ih (ledger.advance P first) with ⟨hseal, hnext⟩
      exact ⟨congrArg (ledger.sealNext P first :: ·) hseal, hnext⟩

theorem Ledger.appendAll_left {path : String} {ledger after : Ledger}
    {file next : Bytes} {records : List RecordOut}
    {entries : List (Entry × Option WriteFault)} {syncFault : Option String}
    {outcome : Except LedgerError Unit}
    (hall : ledger.appendAll P path file entries syncFault =
      (after, next, records, outcome)) :
    ∃ written left, records = ledger.sealAll P written ∧
      next = file ++ joined newline (ledger.inFlight P written) ++ left ∧
      (left = [] ∨ (∃ error, outcome = .error error) ∧ ∃ entry,
        left <+: recordLine P
          ((ledger.advanceAll P written).sealNext P entry) ++ [newline]) := by
  unfold Ledger.appendAll at hall
  rcases heach : Ledger.appendEach P path { ledger with sync := false } file
    [] entries with ⟨last, written, landed, ended⟩
  rcases Ledger.appendEach_left heach with ⟨found, left, hlanded, hfile, hleft⟩
  rw [(ledger.sealNext_sync false found {}).1, List.nil_append] at hlanded
  rw [Ledger.inFlight, (ledger.sealNext_sync false found {}).1] at hfile
  simp only [(ledger.sealNext_sync false found _).2] at hleft
  rw [heach] at hall
  have hended : next = written ∧ records = landed ∧
      ((∃ error, ended = .error error) → ∃ error, outcome = .error error) := by
    simp only at hall
    split at hall
    case isTrue =>
      cases syncFault <;> cases hall
      · exact ⟨rfl, rfl, id⟩
      · exact ⟨rfl, rfl, fun _ => ⟨_, rfl⟩⟩
    case isFalse =>
      cases hall
      exact ⟨rfl, rfl, id⟩
  rcases hended with ⟨rfl, rfl, hfailed⟩
  exact ⟨found, left, hlanded, hfile, hleft.imp id (And.imp_left hfailed)⟩

/-- The backend is on a file still, which gained what the visits left. -/
def LedgerBackend.Gained (backend : LedgerBackend P)
    (meetings : List (SingleLedger → SingleLedger))
    (records : List RecordOut) (failed : Prop) (after : LedgerBackend P) :
    Prop :=
  ∀ path state, backend = .single path state →
    ∃ visits last, after = .single path last ∧
      (visits.map Visit.meanwhile).Sublist meetings ∧
      records = state.landed P visits ∧ state.Left P visits failed last

theorem LedgerBackend.Gained.mono {backend after : LedgerBackend P}
    {meetings more : List (SingleLedger → SingleLedger)}
    {records : List RecordOut} {failed other : Prop}
    (hgained : backend.Gained meetings records failed after)
    (hsub : meetings.Sublist more) (hfailed : failed → other) :
    backend.Gained more records other after := by
  intro path state hstate
  rcases hgained path state hstate with
    ⟨visits, last, hafter, hmeetings, hrecords, hleft⟩
  exact ⟨visits, last, hafter, hmeetings.trans hsub, hrecords,
    hleft.imp hfailed⟩

theorem LedgerBackend.Gained.refl (backend : LedgerBackend P)
    (meetings : List (SingleLedger → SingleLedger)) (failed : Prop) :
    backend.Gained meetings [] failed backend := by
  rintro path state rfl
  exact ⟨[], state, rfl, List.nil_sublist _, rfl, SingleLedger.left_after⟩

variable (P) in
/-- What one decision does on a file: a visit that records its entry, or none
if it fails. -/
def VisitedOnce (meanwhile : SingleLedger → SingleLedger) (path : String)
    (state : SingleLedger) (after : LedgerBackend P)
    (outcome : Except LedgerError RecordOut) : Prop :=
  ∃ entries last, after = .single path last ∧
    outcome.toOption.toList = state.landed P [⟨meanwhile, entries⟩] ∧
    state.Left P [⟨meanwhile, entries⟩] (∃ error, outcome = .error error)
      last ∧
    ∀ record, outcome = .ok record →
      last = state.visited P ⟨meanwhile, entries⟩

section Once

variable {meanwhile : SingleLedger → SingleLedger} {path : String}
  {state last : SingleLedger} {error : LedgerError}

theorem visitedOnce_error (left : Bytes)
    (hfile : last.file = (meanwhile state).file ++ left)
    (hleft : left = [] ∨ ∃ entry, left <+: recordLine P
      ((meanwhile state).ledger.sealNext P entry) ++ [newline]) :
    VisitedOnce P meanwhile path state (.single path last)
      (.error error) := by
  refine ⟨[], last, rfl, ?_, SingleLedger.left_singleton left ?_
    (hleft.imp id fun hline => ⟨⟨error, rfl⟩, hline⟩), ?_⟩
  · simp [Ledger.sealAll, Except.toOption]
  · simp [Ledger.inFlight, Ledger.sealAll, hfile]
  · intro record hok
    cases hok

theorem visitedOnce_ok {entry : Entry}
    (hsafe : (meanwhile state).poisoned = false) :
    VisitedOnce P meanwhile path state (.single path
        ⟨(meanwhile state).ledger.advance P entry,
          (meanwhile state).file ++ (recordLine P
            ((meanwhile state).ledger.sealNext P entry) ++ [newline]), false⟩)
      (.ok ((meanwhile state).ledger.sealNext P entry)) := by
  have hvisited : state.visited P ⟨meanwhile, [entry]⟩ =
      ⟨(meanwhile state).ledger.advance P entry,
        (meanwhile state).file ++ (recordLine P
          ((meanwhile state).ledger.sealNext P entry) ++ [newline]),
        false⟩ := by
    simp [SingleLedger.visited, Ledger.advanceAll, Ledger.inFlight,
      Ledger.sealAll, hsafe]
  rw [← hvisited]
  refine ⟨[entry], _, rfl, ?_, SingleLedger.left_after, fun _ _ => rfl⟩
  simp [Ledger.sealAll, Except.toOption]

end Once

theorem recordDecision_visited (meeting : Meeting) (path : String)
    (state : SingleLedger) (shard : Decide.RecordShard) (entry : Entry) :
    VisitedOnce P meeting.meanwhile path state
      (recordDecision meeting (LedgerBackend.single (P := P) path state)
        shard entry).1
      (recordDecision meeting (LedgerBackend.single (P := P) path state)
        shard entry).2 := by
  have hnothing : ∀ {error : LedgerError} {last : SingleLedger},
      last.file = (meeting.meanwhile state).file →
      VisitedOnce P meeting.meanwhile path state (.single path last)
        (.error error) := by
    intro error last hfile
    exact visitedOnce_error [] (by simp [hfile]) (Or.inl rfl)
  unfold recordDecision
  simp only
  split
  case isTrue => exact hnothing rfl
  case isFalse hsafe =>
    split
    case h_1 => exact hnothing rfl
    case h_2 settled _ =>
      rcases (meeting.meanwhile state).ledger.append_cases P path
        (meeting.meanwhile state).file settled meeting.fault with
        ⟨_, hresult⟩ | ⟨_, hresult⟩ | ⟨_, count, err, hresult⟩ <;>
        rw [hresult]
      · exact hnothing rfl
      · exact visitedOnce_ok (Bool.eq_false_of_not_eq_true hsafe)
      · exact visitedOnce_error _ rfl
          (Or.inr ⟨settled, List.take_prefix count _⟩)

/-- One decision visits a file once. -/
theorem recordDecision_gained {meeting : Meeting}
    {backend after : LedgerBackend P} {shard : Decide.RecordShard}
    {entry : Entry} {outcome : Except LedgerError RecordOut}
    (hrecorded : recordDecision meeting backend shard entry =
      (after, outcome)) :
    backend.Gained [meeting.meanwhile] outcome.toOption.toList
      (∃ error, outcome = .error error) after := by
  rintro path state rfl
  have hvisited := recordDecision_visited (P := P) meeting path state shard
    entry
  rw [hrecorded] at hvisited
  rcases hvisited with ⟨entries, last, hafter, hlanded, hleft, _⟩
  exact ⟨[⟨meeting.meanwhile, entries⟩], last, hafter, by simp, hlanded,
    hleft⟩

namespace Batch

open Decide (Authenticated DecideReq admitNamed admitReq evaluateOne)

variable {S Q E C : Type} {caller : Option Authenticated} {top : BatchReq}
  {semantic : Semantic} {moments : ℕ → Moment S Q E C}

/-- An item leaves a file alone or visits it once. -/
theorem recordItem_visited {meeting : Meeting} {path : String}
    {state : SingleLedger} {after : LedgerBackend P} {progress : Progress}
    {a : Answer} {outcome : Except LedgerError (Settled × Progress)}
    (hitem : recordItem semantic meeting (.single path state) progress a =
      (after, outcome)) :
    (after = .single path state ∧
      ∃ s moved, outcome = .ok (s, moved) ∧ s.landed = none) ∨
    ∃ found, VisitedOnce P meeting.meanwhile path state after found ∧
      ((∃ error, found = .error error ∧ outcome = .error error) ∨
        ∃ record s moved, found = .ok record ∧ outcome = .ok (s, moved) ∧
          s.landed = some record) := by
  unfold recordItem at hitem
  split at hitem
  case h_1 =>
    cases hitem
    exact Or.inl ⟨rfl, _, _, rfl, rfl⟩
  case h_2 shard entry _ _ =>
    have hvisited := recordDecision_visited (P := P) meeting path state shard
      entry
    split at hitem
    case h_1 hdecision =>
      cases hitem
      rw [hdecision] at hvisited
      exact Or.inr ⟨_, hvisited, Or.inl ⟨_, rfl, rfl⟩⟩
    case h_2 hdecision =>
      cases hitem
      rw [hdecision] at hvisited
      exact Or.inr ⟨_, hvisited, Or.inr ⟨_, _, _, rfl, rfl, rfl⟩⟩
  case h_3 =>
    cases hitem
    exact Or.inl ⟨rfl, _, _, rfl, rfl⟩

/-- What the others do before the items from `index` on are recorded. -/
def meetingsFrom (moments : ℕ → Moment S Q E C) (index count : ℕ) :
    List (SingleLedger → SingleLedger) :=
  (List.range' index count).map fun index =>
    (moments index).meeting.meanwhile

theorem runItems_visited {path : String} {state : SingleLedger}
    {after : LedgerBackend P} {landed all : List RecordOut}
    {progress : Progress} {index : ℕ} {items : List Value}
    {outcome : Except LedgerError Progress}
    (hrun : runItems caller top semantic moments (.single path state) landed
      progress index items = (after, all, outcome)) :
    ∃ visits last, after = .single path last ∧
      (visits.map Visit.meanwhile).Sublist
        (meetingsFrom moments index items.length) ∧
      all = landed ++ state.landed P visits ∧
      state.Left P visits (∃ error, outcome = .error error) last := by
  induction items generalizing state landed progress index with
  | nil =>
      cases hrun
      exact ⟨[], state, rfl, by simp, by simp [SingleLedger.landed],
        SingleLedger.left_after⟩
  | cons item rest ih =>
      have hmeetings : meetingsFrom moments index (item :: rest).length =
          (moments index).meeting.meanwhile ::
            meetingsFrom moments (index + 1) rest.length := by
        simp [meetingsFrom, List.range'_succ]
      rw [hmeetings]
      unfold runItems at hrun
      simp only at hrun
      split at hrun
      case h_1 next error hitem =>
        cases hrun
        rcases recordItem_visited hitem with
          ⟨_, s, moved, hok, _⟩ |
            ⟨found, ⟨entries, last, hafter, hlanded, hleft, _⟩,
              ⟨failure, rfl, _⟩ | ⟨record, s, moved, _, hok, _⟩⟩
        · cases hok
        · refine ⟨[⟨(moments index).meeting.meanwhile, entries⟩], last,
            hafter, by simp, ?_, hleft.imp fun _ => ⟨error, rfl⟩⟩
          rw [← hlanded]
          simp [Except.toOption]
        · cases hok
      case h_2 next s moved hitem =>
        have hstep : ∃ visits : List Visit, ∃ state',
            next = .single path state' ∧ state' = state.after P visits ∧
              (visits.map Visit.meanwhile).Sublist
                [(moments index).meeting.meanwhile] ∧
              s.landed.toList = state.landed P visits := by
          rcases recordItem_visited hitem with
            ⟨hnext, s', moved', hok, hnone⟩ |
              ⟨found, ⟨entries, last, hafter, hlanded, _, hsame⟩,
                ⟨failure, _, hfail⟩ |
                  ⟨record, s', moved', rfl, hok, hsome⟩⟩
          · cases hok
            exact ⟨[], state, hnext, rfl, by simp,
              by simp [hnone, SingleLedger.landed]⟩
          · cases hfail
          · cases hok
            refine ⟨[⟨(moments index).meeting.meanwhile, entries⟩], last,
              hafter, hsame record rfl, by simp, ?_⟩
            rw [← hlanded, hsome]
            rfl
        rcases hstep with ⟨visits, state', hnext, hstate, hsub, hlanded⟩
        subst hnext
        split at hrun
        case isTrue =>
          cases hrun
          refine ⟨visits, state', rfl, hsub.trans (by simp), ?_, ?_⟩
          · rw [hlanded]
          · rw [hstate]
            exact SingleLedger.left_after
        case isFalse =>
          rcases ih hrun with ⟨more, last, hafter, hmore, hall, hleft⟩
          rw [hstate] at hall hleft
          refine ⟨visits ++ more, last, hafter, ?_, ?_, hleft.append⟩
          · rw [List.map_append]
            exact hsub.append hmore
          · rw [hall, hlanded, SingleLedger.landed_append, List.append_assoc]

theorem runItems_gained {backend after : LedgerBackend P}
    {landed : List RecordOut} {items : List Value}
    {outcome : Except LedgerError Progress}
    (hrun : runItems caller top semantic moments backend [] {} 0 items =
      (after, landed, outcome)) :
    backend.Gained (meetingsFrom moments 0 items.length) landed
      (∃ error, outcome = .error error) after := by
  rintro path state rfl
  rcases runItems_visited hrun with
    ⟨visits, last, hafter, hmeetings, hlanded, hleft⟩
  exact ⟨visits, last, hafter, hmeetings, hlanded, hleft⟩

/-- The closing of an exchange visits a file once. -/
theorem recordDecisions_gained {meanwhile : SingleLedger → SingleLedger}
    {backend after : LedgerBackend P} {recordings : List Recording}
    {syncFault : Option String} {records : List RecordOut}
    {outcome : Except LedgerError Unit}
    (hrecorded : recordDecisions backend meanwhile recordings syncFault =
      (after, records, outcome)) :
    backend.Gained [meanwhile] records (∃ error, outcome = .error error)
      after := by
  rintro path state rfl
  have hnothing : ∀ last : SingleLedger, last.file = (meanwhile state).file →
      ∃ visits next, LedgerBackend.single (P := P) path last =
          .single path next ∧
        (visits.map Visit.meanwhile).Sublist [meanwhile] ∧
        [] = state.landed P visits ∧
        state.Left P visits (∃ error, outcome = .error error) next := by
    intro last hfile
    refine ⟨[⟨meanwhile, []⟩], last, rfl, by simp, by simp [Ledger.sealAll],
      SingleLedger.left_singleton [] ?_ (Or.inl rfl)⟩
    simp [Ledger.inFlight, Ledger.sealAll, hfile]
  unfold recordDecisions at hrecorded
  simp only at hrecorded
  split at hrecorded
  case isTrue =>
    cases hrecorded
    exact hnothing _ rfl
  case isFalse =>
    split at hrecorded
    case h_1 =>
      cases hrecorded
      exact hnothing _ rfl
    case h_2 settled _ =>
      rcases happended : (meanwhile state).ledger.appendAll P path
        (meanwhile state).file settled syncFault with
        ⟨ledger, file, landed, ended⟩
      rcases Ledger.appendAll_left happended with
        ⟨written, left, rfl, hfile, hleft⟩
      rw [happended] at hrecorded
      cases hrecorded
      exact ⟨[⟨meanwhile, written⟩], _, rfl, by simp, by simp,
        SingleLedger.left_singleton _ hfile hleft⟩

/-! ## The exchange -/

section Law

variable (quoted : String → String) (caller : Option Authenticated)
  (top : BatchReq) (moments : ℕ → Moment S Q E C) (closing : Closing)
  (backend : LedgerBackend P)

/-- The items of an exchange under the semantic it names. -/
def Under (semantic : Semantic) (items : List Value) : Prop :=
  Semantic.parse quoted (top.options.bind Options.evaluationsSemantic) =
      .ok semantic ∧
    top.evaluations = some items ∧ items ≠ [] ∧
    ∀ item ∈ items, admitNamed caller (facts top item) = none

/-- When an exchange takes the ledger's lock: for its items in turn, or for its
one evaluation, and at its end. -/
def meetingsOf : List (SingleLedger → SingleLedger) :=
  meetingsFrom moments 0 (max 1 (top.evaluations.getD []).length) ++
    [closing.meanwhile]

/-- What an exchange comes to: the ledger, the records it landed, and the
response. -/
structure Lawful
    (run : LedgerBackend P × List RecordOut × Response) : Prop where
  -- the answers served are of the items in order, each as recorded, to the
  -- first the exchange stops on; the records that landed are theirs
  served : ∀ results, run.2.2 = .evaluations results →
    ∃ semantic items settled, Under quoted caller top semantic items ∧
      Serves P caller top semantic moments 0 items settled ∧
      (semantic = .executeAll → settled.length = items.length) ∧
      results = settled.map Settled.body ∧ run.2.1 = landedOf settled
  -- a record that did not land fails the exchange; those that landed are of
  -- its first items
  unrecorded : ∀ error, run.2.2 = .notRecorded error →
    run.2.1 = [] ∨ ∃ semantic items settled,
      Under quoted caller top semantic items ∧
      Begins P caller top semantic moments 0 items settled ∧
      run.2.1 = landedOf settled
  refused : ∀ refusal, run.2.2 = .refused refusal →
    run.1 = backend ∧ run.2.1 = []
  -- without items it is the one evaluation of what it names
  alone : ∀ body, run.2.2 = .evaluation body →
    top.evaluations.getD [] = [] ∧ ∃ req e record,
      merged P.serdeMessage top none (.object []) = .ok req ∧
      admitReq caller req = none ∧
      evaluateOne (moments 0).host caller req = .ok e ∧
      (moments 0).meeting.Records e.entry record ∧
      run.2.1 = [record] ∧
      body = evaluationBody record.entry.decision record.entry.reasons
        e.errors
  -- a ledger file is what the others left each time its lock was taken with
  -- the lines of those records after it, in order; a failed write may have
  -- left a beginning of one more
  gained : backend.Gained (meetingsOf top moments closing) run.2.1
    (∃ error, run.2.2 = .notRecorded error) run.1

end Law

variable {quoted : String → String} {closing : Closing}
  {backend : LedgerBackend P} {items : List Value}

/-- The items' moments, or that of the one evaluation, come first. -/
theorem meetingsFrom_sublist {count : ℕ}
    (hcount : count ≤ max 1 (top.evaluations.getD []).length) :
    (meetingsFrom moments 0 count).Sublist (meetingsOf top moments closing) :=
  ((List.range'_sublist_right.mpr hcount).map _).trans
    (List.sublist_append_left _ _)

theorem Under.length_le (hunder : Under quoted caller top semantic items) :
    items.length ≤ max 1 (top.evaluations.getD []).length := by
  rw [hunder.2.1]
  exact le_max_right _ _

/-- Where the exchange may stop, nothing is left to record at its end. -/
theorem runExchange_stopping (hsemantic : semantic ≠ .executeAll)
    (hunder : Under quoted caller top semantic items) :
    Lawful quoted caller top moments closing backend
      (runExchange caller top semantic moments closing backend items) := by
  rcases hrun : runItems caller top semantic moments backend [] {} 0 items
    with ⟨after, landed, outcome⟩
  rcases runItems_stopping hsemantic hrun with
    ⟨settled, hlanded, hok, herror⟩
  rw [List.nil_append] at hlanded
  have hgained := runItems_gained hrun
  have hmeetings : (meetingsFrom moments 0 items.length).Sublist
      (meetingsOf top moments closing) :=
    meetingsFrom_sublist hunder.length_le
  unfold runExchange
  rw [hrun]
  cases outcome with
  | error error =>
      exact {
        served := by simp
        unrecorded := fun _ _ => Or.inr
          ⟨semantic, items, settled, hunder, herror error rfl, hlanded⟩
        refused := by simp
        alone := by simp
        gained := hgained.mono hmeetings fun _ => ⟨error, rfl⟩ }
  | ok final =>
      rcases hok final rfl with ⟨hserves, rfl⟩
      exact {
        served := by
          rintro results ⟨⟩
          exact ⟨semantic, items, settled, hunder, hserves,
            fun hall => absurd hall hsemantic, rfl, hlanded⟩
        unrecorded := by simp
        refused := by simp
        alone := by simp
        gained := hgained.mono hmeetings fun hfailed => by
          rcases hfailed with ⟨error, herror⟩
          cases herror }

theorem runExchange_executeAll
    (hunder : Under quoted caller top .executeAll items) :
    Lawful quoted caller top moments closing backend
      (runExchange caller top .executeAll moments closing backend items) := by
  unfold runExchange
  rw [runItems_executeAll]
  let answers := answersFrom P caller top moments 0 items
  have hserved : ∀ records : List RecordOut,
      records.length = (recordingsOf answers).length →
      servedAsRecorded (answers.map fun answered => answered.2.body)
          (decidedFrom 0 answers) records =
        (settleAll answers records).map Settled.body := by
    intro records hlength
    simpa using servedAsRecorded_eq [] hlength
  simp only [List.nil_append, List.length_nil]
  split
  case isTrue hnone =>
    have hlength : ([] : List RecordOut).length =
        (recordingsOf answers).length := by
      rw [List.isEmpty_iff.mp hnone]
      rfl
    rcases settleAll_begins (RecordsOf.nil (recordingsOf answers)) with
      ⟨_, hserves⟩
    exact {
      served := by
        rintro results ⟨⟩
        refine ⟨.executeAll, items, _, hunder, hserves hlength,
          fun _ => (hserves hlength).length_eq, ?_, ?_⟩
        · rw [← hserved [] hlength]
          simp [servedAsRecorded, answers]
        · exact (landedOf_settleAll hlength.le).symm
      unrecorded := by simp
      refused := by simp
      alone := by simp
      gained := .refl backend _ _ }
  case isFalse =>
    have hclosing : [closing.meanwhile].Sublist
        (meetingsOf top moments closing) := List.sublist_append_right _ _
    rcases hrecorded : recordDecisions backend closing.meanwhile
      (recordingsOf answers) closing.syncFault with ⟨after, records, outcome⟩
    rcases recordDecisions_records hrecorded with ⟨hrecords, hlength⟩
    rcases settleAll_begins hrecords with ⟨hbegins, hserves⟩
    have hlanded := landedOf_settleAll hrecords.length_le
    have hgained := recordDecisions_gained hrecorded
    cases outcome with
    | error error =>
        exact {
          served := by simp
          unrecorded := fun _ _ => Or.inr
            ⟨.executeAll, items, _, hunder, hbegins, hlanded.symm⟩
          refused := by simp
          alone := by simp
          gained := hgained.mono hclosing fun _ => ⟨error, rfl⟩ }
    | ok _ =>
        exact {
          served := by
            rintro results ⟨⟩
            exact ⟨.executeAll, items, _, hunder, hserves (hlength rfl),
              fun _ => (hserves (hlength rfl)).length_eq,
              hserved records (hlength rfl), hlanded.symm⟩
          unrecorded := by simp
          refused := by simp
          alone := by simp
          gained := hgained.mono hclosing fun hfailed => by
            rcases hfailed with ⟨error, herror⟩
            cases herror }

theorem lawful_refused (refusal : Decide.Refusal) :
    Lawful quoted caller top moments closing backend
      (backend, [], .refused refusal) where
  served := by simp
  unrecorded := by simp
  refused := by simp
  alone := by simp
  gained := .refl backend _ _

theorem decideOne_lawful {req : DecideReq}
    (hnone : top.evaluations.getD [] = [])
    (hmerged : merged P.serdeMessage top none (.object []) = .ok req) :
    Lawful quoted caller top moments closing backend
      (decideOne caller (moments 0) backend req) := by
  unfold decideOne
  cases hadmitted : admitReq caller req with
  | some refusal => exact lawful_refused refusal
  | none =>
      cases hevaluated : evaluateOne (moments 0).host caller req with
      | error refusal => exact lawful_refused refusal
      | ok e =>
          have hfirst : (meetingsFrom moments 0 1).Sublist
              (meetingsOf top moments closing) :=
            meetingsFrom_sublist (le_max_left _ _)
          rcases hrecorded : recordDecision (moments 0).meeting backend
            e.shard e.entry with ⟨after, outcome⟩
          have hgained := recordDecision_gained hrecorded
          simp only [hrecorded]
          cases outcome with
          | error error =>
              exact {
                served := by simp
                unrecorded := fun _ _ => Or.inl rfl
                refused := by simp
                alone := by simp
                gained := hgained.mono hfirst fun _ => ⟨error, rfl⟩ }
          | ok record =>
              exact {
                served := by simp
                unrecorded := by simp
                refused := by simp
                alone := by
                  rintro body ⟨⟩
                  exact ⟨hnone, req, e, record, hmerged, hadmitted,
                    hevaluated, recordDecision_eq_ok hrecorded, rfl, rfl⟩
                gained := hgained.mono hfirst fun hfailed => by
                  rcases hfailed with ⟨error, herror⟩
                  cases herror }

/-- An exchange is refused, is the one evaluation of what it names, or runs
its items. -/
theorem evaluateAll_cases (quoted : String → String)
    (caller : Option Authenticated) (top : BatchReq)
    (moments : ℕ → Moment S Q E C) (closing : Closing)
    (backend : LedgerBackend P) :
    (∃ refusal, evaluateAll quoted caller top moments closing backend =
        (backend, [], .refused refusal)) ∨
      (∃ req, top.evaluations.getD [] = [] ∧
        merged P.serdeMessage top none (.object []) = .ok req ∧
        evaluateAll quoted caller top moments closing backend =
          decideOne caller (moments 0) backend req) ∨
      ∃ semantic items, Under quoted caller top semantic items ∧
        evaluateAll quoted caller top moments closing backend =
          runExchange caller top semantic moments closing backend items := by
  unfold evaluateAll
  split
  case h_1 => exact Or.inl ⟨_, rfl⟩
  case h_2 semantic hsemantic =>
    simp only
    split
    case isTrue hnone =>
      split
      case h_1 => exact Or.inl ⟨_, rfl⟩
      case h_2 req hmerged =>
        exact Or.inr (Or.inl ⟨req, List.isEmpty_iff.mp hnone, hmerged, rfl⟩)
    case isFalse hsome =>
      have hitems : top.evaluations = some (top.evaluations.getD []) := by
        cases hevaluations : top.evaluations with
        | none => simp [hevaluations] at hsome
        | some items => rfl
      split
      case isTrue => exact Or.inl ⟨_, rfl⟩
      case isFalse =>
        split
        case h_1 => exact Or.inl ⟨_, rfl⟩
        case h_2 hadmitted =>
          split
          case isTrue => exact Or.inl ⟨_, rfl⟩
          case isFalse =>
            refine Or.inr (Or.inr ⟨semantic, _, ?_, rfl⟩)
            refine ⟨hsemantic, hitems, ?_, ?_⟩
            · simpa using hsome
            · exact List.findSome?_eq_none_iff.mp hadmitted

theorem lawful_evaluateAll (quoted : String → String)
    (caller : Option Authenticated) (top : BatchReq)
    (moments : ℕ → Moment S Q E C) (closing : Closing)
    (backend : LedgerBackend P) :
    Lawful quoted caller top moments closing backend
      (evaluateAll quoted caller top moments closing backend) := by
  rcases evaluateAll_cases quoted caller top moments closing backend with
    ⟨refusal, hrun⟩ | ⟨req, hnone, hmerged, hrun⟩ |
      ⟨semantic, items, hunder, hrun⟩
  · rw [hrun]
    exact lawful_refused refusal
  · rw [hrun]
    exact decideOne_lawful hnone hmerged
  · rw [hrun]
    by_cases hall : semantic = .executeAll
    · subst hall
      exact runExchange_executeAll hunder
    · exact runExchange_stopping hall hunder

end Batch

end Decern
