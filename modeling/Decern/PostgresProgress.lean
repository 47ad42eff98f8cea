import Decern.PostgresProtocol
import Mathlib.Tactic

/-!
# A call made is answered

The jobs are served in the order they were queued, and a job takes a bounded
number of steps whichever way its calls to the database end.  A call's rank
counts the steps of its process that are left before it is answered: no step
of anyone raises it, every step of the actor lowers it, and as long as the
call is not over one of the store's own steps that lowers it is open.
-/

namespace Decern.Postgres

variable {T : Type}

/-! ## The rank of a call -/

/-- The steps left of a job whose decision is awaited; the callback's is
one. -/
def Phase.decisionSteps : Phase → ℕ
  | .running => 7
  | _ => 6

/-- The steps left of the job an actor serves. -/
def Node.stepsLeft (node : Node T) : ℕ :=
  match node.actor with
  | .receiving | .stopped => 0
  | .beginning _ => 12
  | .locking _ => 11
  | .readingHead _ => 10
  | .readingRecords _ _ => 9
  | .handing _ _ => 8
  | .awaitingDecision t => (node.calls t).phase.decisionSteps
  | .insertingRecord _ _ _ => 5
  | .insertingHead _ _ => 4
  | .committing _ => 3
  | .listing _ => 3
  | .ended _ _ => 2
  | .answering _ _ => 1

/-- The steps left of a caller whose job is dropped. -/
def Phase.stepsLeft : Phase → ℕ
  | .running => 3
  | .sendingDecision => 2
  | .awaitingLoaded | .awaitingDone | .awaitingList => 1
  | _ => 0

/-- The steps of its process left before a call is answered: those of the job
served, and of the jobs queued up to its own. -/
def Node.rank [DecidableEq T] (node : Node T) (t : T) : ℕ :=
  if (node.calls t).phase.pending then
    if t ∈ node.queue then
      node.stepsLeft + 13 * (node.queue.idxOf t + 1)
    else if node.actor.serves = some t then node.stepsLeft
    else (node.calls t).phase.stepsLeft
  else 0

/-! ## Bounds -/

theorem Phase.stepsLeft_eq_zero {phase : Phase}
    (hpending : phase.pending = false) : phase.stepsLeft = 0 := by
  cases phase <;> first | rfl | cases hpending

theorem Phase.stepsLeft_pos {phase : Phase} (hpending : phase.pending = true) :
    0 < phase.stepsLeft := by
  cases phase <;> first | (simp [Phase.stepsLeft]; done) | cases hpending

theorem Phase.decisionSteps_eq {phase : Phase} (hphase : phase ≠ .running) :
    phase.decisionSteps = 6 := by
  cases phase <;> first | rfl | exact absurd rfl hphase

theorem Phase.decisionSteps_ge (phase : Phase) : 6 ≤ phase.decisionSteps := by
  cases phase <;> simp [Phase.decisionSteps]

theorem Phase.decisionSteps_le (phase : Phase) : phase.decisionSteps ≤ 7 := by
  cases phase <;> simp [Phase.decisionSteps]

theorem Phase.cases_of_pending {phase : Phase}
    (hpending : phase.pending = true) :
    phase = .running ∨ phase = .sendingDecision ∨
      (phase = .awaitingLoaded ∨ phase = .awaitingDone ∨
        phase = .awaitingList) := by
  cases phase <;> simp_all [Phase.pending]

theorem Answer.expects.answers {answer : Answer} {phase : Phase}
    (hexpects : answer.expects phase) : ∃ last, Answers answer phase last := by
  cases answer <;> simp only [Answer.expects] at hexpects <;> subst hexpects
  · exact ⟨_, .unloaded _⟩
  · exact ⟨_, .ran _⟩
  · exact ⟨_, .listed _⟩

namespace Node

variable {D : Deployment T} {node next : Node T} {t u : T}

theorem stepsLeft_le (node : Node T) : node.stepsLeft ≤ 12 := by
  unfold stepsLeft
  split <;> try omega
  exact (Phase.decisionSteps_le _).trans (by omega)

/-- Moving a call other than to its callback leaves no more to do. -/
theorem stepsLeft_le_of_moved (hactor : next.actor = node.actor)
    (hothers : ∀ v ≠ u, next.calls v = node.calls v)
    (hphase : (next.calls u).phase ≠ .running) :
    next.stepsLeft ≤ node.stepsLeft := by
  unfold stepsLeft
  rw [hactor]
  cases node.actor with
  | awaitingDecision v =>
      by_cases hsame : v = u
      · subst hsame
        simp only [Phase.decisionSteps_eq hphase]
        exact Phase.decisionSteps_ge _
      · simp only [hothers v hsame]
        exact le_refl _
  | _ => exact le_refl _

variable [DecidableEq T]

theorem rank_queued (hpending : (node.calls t).phase.pending = true)
    (hin : t ∈ node.queue) :
    node.rank t = node.stepsLeft + 13 * (node.queue.idxOf t + 1) := by
  simp [rank, hpending, hin]

theorem rank_served (hmatched : node.Matched D)
    (hpending : (node.calls t).phase.pending = true)
    (hserves : node.actor.serves = some t) :
    node.rank t = node.stepsLeft := by
  simp [rank, hpending, hmatched.apart t hserves, hserves]

theorem rank_dropped (hqueue : t ∉ node.queue)
    (hserves : node.actor.serves ≠ some t) :
    node.rank t = (node.calls t).phase.stepsLeft := by
  by_cases hpending : (node.calls t).phase.pending = true
  · simp [rank, hpending, hqueue, hserves]
  · rw [Bool.not_eq_true] at hpending
    simp [rank, hpending, Phase.stepsLeft_eq_zero hpending]

theorem rank_over (hover : (node.calls t).phase.pending = false) :
    node.rank t = 0 := by
  simp [rank, hover]

/-- A step of the actor with the job it serves. -/
theorem rank_lt_of_serving (hmatched : node.Matched D)
    (hserves : node.actor.serves = some u) (hqueue : next.queue = node.queue)
    (hnext : next.actor.serves = some u ∨
      (next.calls u).phase.pending = false)
    (hothers : ∀ v ≠ u, next.calls v = node.calls v)
    (hless : next.stepsLeft < node.stepsLeft)
    (hpending : (node.calls t).phase.pending = true) :
    next.rank t < node.rank t := by
  by_cases hsame : t = u
  · subst hsame
    rw [rank_served hmatched hpending hserves]
    by_cases hstill : (next.calls t).phase.pending = true
    · have hnextServes : next.actor.serves = some t := by
        rcases hnext with hnext | hover
        · exact hnext
        · rw [hover] at hstill
          cases hstill
      have hout : t ∉ next.queue := by
        rw [hqueue]
        exact hmatched.apart t hserves
      simpa [rank, hstill, hout, hnextServes] using hless
    · rw [Bool.not_eq_true] at hstill
      rw [rank_over hstill]
      omega
  · have hin : t ∈ node.queue := by
      rcases hmatched.held t hpending with hin | hserved | hstopped
      · exact hin
      · rw [hserves] at hserved
        exact absurd (Option.some.inj hserved).symm hsame
      · rw [hstopped] at hserves
        cases hserves
    rw [rank_queued hpending hin, rank_queued (by rwa [hothers t hsame])
      (by rwa [hqueue]), hqueue]
    omega

/-- A call moves, the actor and the queue stay. -/
theorem rank_le_of_moved (hactor : next.actor = node.actor)
    (hqueue : next.queue = node.queue)
    (hothers : ∀ v ≠ u, next.calls v = node.calls v)
    (hphase : (next.calls u).phase ≠ .running)
    (hleft : (next.calls u).phase.stepsLeft ≤ (node.calls u).phase.stepsLeft)
    (hstill : (next.calls u).phase.pending = true →
      (node.calls u).phase.pending = true) :
    next.rank t ≤ node.rank t := by
  have hless := stepsLeft_le_of_moved hactor hothers hphase
  by_cases hpending : (next.calls t).phase.pending = true
  · have hbefore : (node.calls t).phase.pending = true ∧
        (next.calls t).phase.stepsLeft ≤
          (node.calls t).phase.stepsLeft := by
      by_cases hsame : t = u
      · subst hsame
        exact ⟨hstill hpending, hleft⟩
      · rw [hothers t hsame] at hpending ⊢
        exact ⟨hpending, le_refl _⟩
    simp only [rank, hpending, hbefore.1, if_true, hqueue, hactor]
    split
    · omega
    · split
      · exact hless
      · exact hbefore.2
  · rw [Bool.not_eq_true] at hpending
    rw [rank_over hpending]
    omega

theorem rank_le_of_over {phase : Phase} (hover : phase.over = true) :
    (node.move u phase).rank t ≤ node.rank t := by
  have hpending := Phase.pending_of_over hover
  refine rank_le_of_moved rfl rfl
    (fun v hne => Node.calls_move_ne node _ hne) ?_ ?_ ?_
  · rintro hrunning
    rw [Node.calls_move_self] at hrunning
    rw [show phase = .running from hrunning] at hover
    cases hover
  · simp [Phase.stepsLeft_eq_zero hpending]
  · simp [hpending]

/-! ## What each step leaves to do -/

omit [DecidableEq T] in
theorem stepsLeft_of_loading (hloading : Loading node.actor t) :
    9 ≤ node.stepsLeft := by
  generalize hactor : node.actor = actor at hloading
  cases hloading <;> simp [stepsLeft, hactor]

omit [DecidableEq T] in
theorem stepsLeft_of_writing (hwriting : Writing node.actor t) :
    3 ≤ node.stepsLeft := by
  generalize hactor : node.actor = actor at hwriting
  cases hwriting <;> simp [stepsLeft, hactor]

omit [DecidableEq T] in
theorem stepsLeft_decide (node : Node T) (t : T) (decision : ShardWrite) :
    (node.decide t decision).stepsLeft ≤ 5 := by
  rcases decision with e | write
  · simp [decide, ends, stepsLeft]
  · rcases write with _ | ⟨cursor, record⟩
    · simp [decide, commits, stepsLeft]
    · simp only [decide]
      split <;> simp [ends, stepsLeft]

omit [DecidableEq T] in
theorem stepsLeft_recordInserted (D : Deployment T) (node : Node T) (t : T)
    (cursor : HeadCursor) (row : RecordRow) :
    (node.recordInserted D t cursor row).stepsLeft ≤ 4 := by
  simp only [recordInserted]
  split <;> simp [ends, stepsLeft]

omit [DecidableEq T] in
theorem stepsLeft_headRead (D : Deployment T) (node : Node T) (t : T)
    (cursor : Option HeadCursor) :
    (node.headRead D t cursor).stepsLeft ≤ 9 := by
  by_cases hhistory : D.history t = true <;>
    simp [headRead, stepsLeft, hhistory]

/-- A job taken brings every call of the queue nearer to its answer. -/
theorem rank_lt_of_receives {rest : List T} (hmatched : node.Matched D)
    (hactor : node.actor = .receiving) (hqueue : node.queue = u :: rest)
    (hpending : (node.calls t).phase.pending = true) :
    Node.rank { node with actor := D.received u, queue := rest } t <
      node.rank t := by
  have hin : t ∈ node.queue := by
    rcases hmatched.held t hpending with hin | hserved | hstopped
    · exact hin
    · rw [hactor] at hserved
      cases hserved
    · rw [hactor] at hstopped
      cases hstopped
  have hdistinct := hmatched.distinct
  rw [hqueue, List.nodup_cons] at hdistinct
  have hbound := stepsLeft_le
    { node with actor := D.received u, queue := rest }
  have hnone : node.stepsLeft = 0 := by simp [stepsLeft, hactor]
  rw [rank_queued hpending hin, hnone, hqueue]
  by_cases hsame : t = u
  · subst hsame
    have hrank : Node.rank { node with actor := D.received t, queue := rest } t =
        Node.stepsLeft { node with actor := D.received t, queue := rest } := by
      simp [rank, hpending, hdistinct.1]
    rw [hrank, List.idxOf_cons_self]
    omega
  · have hlater : t ∈ rest := by
      rw [hqueue] at hin
      exact (List.mem_cons.mp hin).resolve_left hsame
    rw [rank_queued (by simpa using hpending) (by simpa using hlater),
      List.idxOf_cons_ne rest (Ne.symm hsame)]
    simp only
    omega

/-! ## Steps and the rank -/

variable {tables : Tables} {free : ℤ → Prop} {move : Move T}
  {out : Option (Tx T)}

/-- A step of the actor with the job it serves leaves less of it to do; the
other calls and the queue stay, and the job's own call is over when it is
done. -/
theorem serving_of_actor (hserves : node.actor.serves = some u)
    (hacts : Acts D tables free node .actor next out) :
    next.queue = node.queue ∧ (∀ v ≠ u, next.calls v = node.calls v) ∧
      next.stepsLeft < node.stepsLeft ∧
      (next.actor.serves = some u ∨
        next.actor = .receiving ∧ (next.calls u).phase.pending = false) := by
  cases hacts with
  | receives hactor =>
      rw [hactor] at hserves
      cases hserves
  | begins hactor | locks hactor | readsRecords hactor | headUnreadable hactor
  | recordsUnreadable hactor | unhanded hactor | insertsHead hactor
  | commits hactor | lists hactor | listFails hactor | notes hactor =>
      rw [hactor] at hserves
      cases hserves
      refine ⟨rfl, fun _ _ => rfl, ?_, Or.inl rfl⟩
      simp [stepsLeft, ends, headInserted, Node.commits, hactor]
  | undecided hactor =>
      rw [hactor] at hserves
      cases hserves
      refine ⟨rfl, fun _ _ => rfl, ?_, Or.inl rfl⟩
      have hge := Phase.decisionSteps_ge
      simp only [stepsLeft, ends, hactor]
      exact lt_of_lt_of_le (by omega) (hge _)
  | @readsHead u cursor hactor =>
      rw [hactor] at hserves
      cases hserves
      refine ⟨rfl, fun _ _ => rfl, ?_, Or.inl ?_⟩
      · have hle := stepsLeft_headRead D node u cursor
        have heq : node.stepsLeft = 10 := by simp [stepsLeft, hactor]
        omega
      · simp only [headRead]
        split <;> rfl
  | loadFails hactor =>
      cases hserves.symm.trans hactor.expects.1
      refine ⟨rfl, fun _ _ => rfl, ?_, Or.inl rfl⟩
      exact lt_of_lt_of_le (by simp [stepsLeft, ends])
        (stepsLeft_of_loading hactor)
  | writeFails hactor =>
      cases hserves.symm.trans hactor.expects.1
      refine ⟨rfl, fun _ _ => rfl, ?_, Or.inl rfl⟩
      exact lt_of_lt_of_le (by simp [stepsLeft, ends])
        (stepsLeft_of_writing hactor)
  | hands hactor hcall =>
      rw [hactor] at hserves
      cases hserves
      refine ⟨rfl, fun v hne => Node.calls_set_ne node _ hne, ?_,
        Or.inl rfl⟩
      simp [stepsLeft, hactor, Phase.decisionSteps]
  | @ships u decision hactor hcall hdecided =>
      rw [hactor] at hserves
      cases hserves
      rcases decide_serves (node.move u .awaitingDone) u decision with
        ⟨hnext, _, hqueue, hcalls⟩
      refine ⟨hqueue, ?_, ?_, Or.inl hnext⟩
      · intro v hne
        rw [hcalls]
        exact Node.calls_move_ne node _ hne
      · have hle := stepsLeft_decide (node.move u .awaitingDone) u decision
        have heq : node.stepsLeft = 6 := by
          simp [stepsLeft, hactor, hcall, Phase.decisionSteps]
        omega
  | @insertsRecord u cursor row hactor =>
      rw [hactor] at hserves
      cases hserves
      rcases recordInserted_serves D node u cursor row with
        ⟨hnext, _, hqueue, hcalls⟩
      refine ⟨hqueue, ?_, ?_, Or.inl hnext⟩
      · intro v _
        rw [hcalls]
      · have hle := stepsLeft_recordInserted D node u cursor row
        have heq : node.stepsLeft = 5 := by simp [stepsLeft, hactor]
        omega
  | answers hactor hcall =>
      rw [hactor] at hserves
      cases hserves
      refine ⟨rfl, fun v hne => Node.calls_move_ne node _ hne, ?_,
        Or.inr ⟨rfl, ?_⟩⟩
      · simp [stepsLeft, hactor]
      · simpa using Phase.pending_of_over hcall.over
  | unanswered hactor hcall =>
      rw [hactor] at hserves
      cases hserves
      refine ⟨rfl, fun v _ => rfl, ?_,
        Or.inr ⟨rfl, Phase.pending_of_over hcall⟩⟩
      simp [stepsLeft, hactor]

/-- Every step of the actor brings every call nearer to its answer. -/
theorem rank_lt_of_actor (hmatched : node.Matched D)
    (hacts : Acts D tables free node .actor next out)
    (hpending : (node.calls t).phase.pending = true) :
    next.rank t < node.rank t := by
  cases hserves : node.actor.serves with
  | some u =>
      rcases serving_of_actor hserves hacts with
        ⟨hqueue, hothers, hless, hnext⟩
      exact rank_lt_of_serving hmatched hserves hqueue
        (hnext.imp_right And.right) hothers hless hpending
  | none =>
      cases hacts with
      | receives hactor hqueue =>
          exact rank_lt_of_receives hmatched hactor hqueue hpending
      | loadFails hactor | writeFails hactor =>
          rw [hactor.expects.1] at hserves
          cases hserves
      | begins hactor | locks hactor | readsHead hactor | headUnreadable hactor
      | readsRecords hactor | recordsUnreadable hactor | hands hactor
      | unhanded hactor | ships hactor | undecided hactor
      | insertsRecord hactor | insertsHead hactor | commits hactor
      | lists hactor | listFails hactor | notes hactor | answers hactor
      | unanswered hactor =>
          rw [hactor] at hserves
          cases hserves

/-- What is left of a caller is no more than what is left of its job. -/
theorem phase_stepsLeft_le (hmatched : node.Matched D)
    (hpending : (node.calls t).phase.pending = true) :
    (node.calls t).phase.stepsLeft ≤ node.rank t := by
  by_cases hin : t ∈ node.queue
  · rw [rank_queued hpending hin]
    have hle : (node.calls t).phase.stepsLeft ≤ 3 := by
      cases (node.calls t).phase <;> simp [Phase.stepsLeft]
    omega
  · by_cases hserves : node.actor.serves = some t
    · rw [rank_served hmatched hpending hserves]
      have hexpects := hmatched.expected hserves (by
        cases hphase : (node.calls t).phase <;> simp_all [Phase.pending,
          Phase.over])
      cases hactor : node.actor with
      | ended u answer | answering u answer =>
          rw [hactor] at hexpects
          cases answer <;>
            simp_all [Actor.expects, Answer.expects, Phase.stepsLeft, stepsLeft]
      | awaitingDecision u =>
          have hge := Phase.decisionSteps_ge (node.calls u).phase
          rw [hactor] at hexpects
          simp only [stepsLeft, hactor]
          rcases hexpects with hphase | hphase <;> rw [hphase] <;>
            simp only [Phase.stepsLeft] <;> omega
      | receiving | stopped =>
          rw [hactor] at hserves
          cases hserves
      | _ =>
          rw [hactor] at hexpects
          simp only [Actor.expects] at hexpects
          simp [stepsLeft, hactor, hexpects, Phase.stepsLeft]
    · rw [rank_dropped hin hserves]

/-- A job queued later is served later. -/
theorem rank_le_of_queued (hmatched : node.Matched D)
    (hactor : next.actor = node.actor)
    (hqueue : next.queue = node.queue ++ [u])
    (hothers : ∀ v ≠ u, next.calls v = node.calls v)
    (hphase : (next.calls u).phase ≠ .running) (hne : t ≠ u)
    (hpending : (node.calls t).phase.pending = true) :
    next.rank t ≤ node.rank t := by
  have hsteps := stepsLeft_le_of_moved hactor hothers hphase
  have hstill := hothers t hne
  by_cases hin : t ∈ node.queue
  · rw [rank_queued hpending hin, rank_queued (by rwa [hstill])
      (by simp [hqueue, hin]), hqueue, List.idxOf_append_of_mem hin]
    omega
  · have hout : t ∉ next.queue := by simp [hqueue, hin, hne]
    by_cases hserves : node.actor.serves = some t
    · rw [rank_served hmatched hpending hserves]
      refine le_of_eq_of_le ?_ hsteps
      simp [rank, hstill, hpending, hout, hactor, hserves]
    · rw [rank_dropped hin hserves, rank_dropped hout (by rwa [hactor]),
        hstill]

theorem present_move (hpresent : (node.calls t).phase.present = true)
    {phase : Phase} (hphase : phase.present = true) :
    ((node.move u phase).calls t).phase.present = true := by
  by_cases hsame : t = u
  · subst hsame
    simpa using hphase
  · rwa [Node.calls_move_ne node phase hsame]

/-- Only its caller leaves a call made. -/
theorem present_step (hacts : Acts D tables free node move next out)
    (hown : move.own = true)
    (hpresent : (node.calls t).phase.present = true) :
    (next.calls t).phase.present = true := by
  cases hacts with
  | orphaned =>
      apply present_move hpresent
      unfold Deployment.failed
      split <;> rfl
  | unsent => exact present_move hpresent rfl
  | answers hactor hcall => exact present_move hpresent hcall.present
  | @hands u | @decides u =>
      by_cases hsame : t = u
      · subst hsame
        simp [Phase.present]
      · simpa only [Node.calls_set_ne node _ hsame] using hpresent
  | @ships u decision =>
      rw [(decide_serves (node.move u .awaitingDone) u decision).2.2.2]
      exact present_move hpresent rfl
  | @insertsRecord u cursor row =>
      rw [(recordInserted_serves D node u cursor row).2.2.2]
      exact hpresent
  | queued | full | unserved | leaves | stops | loses | abandons | completes =>
      cases hown
  | _ => exact hpresent

/-- No step of anyone puts a call made further from its answer. -/
theorem rank_le_of_step (hmatched : node.Matched D)
    (hacts : Acts D tables free node move next out)
    (hpending : (node.calls t).phase.pending = true) :
    next.rank t ≤ node.rank t := by
  by_cases hmove : move = .actor
  · subst hmove
    exact (rank_lt_of_actor hmatched hacts hpending).le
  · cases hacts with
    | @queued u hcall hactor hroom =>
        have hne : t ≠ u := by
          rintro rfl
          rw [hcall] at hpending
          cases hpending
        refine rank_le_of_queued hmatched rfl rfl
          (fun v hother => Node.calls_move_ne node (D.awaiting u) hother)
          ?_ hne hpending
        simp only [Node.calls_move_self]
        unfold Deployment.awaiting
        split <;> simp
    | full | unserved | orphaned => exact rank_le_of_over (D.over_failed _ _)
    | leaves => exact rank_le_of_over rfl
    | decides hcall decision =>
        refine rank_le_of_moved rfl rfl
          (fun v hne => Node.calls_set_ne node _ hne) ?_ ?_ ?_ <;>
          simp [hcall, Phase.stepsLeft, Phase.pending]
    | unsent hcall =>
        refine rank_le_of_moved rfl rfl
          (fun v hne => Node.calls_move_ne node _ hne) ?_ ?_ ?_ <;>
          simp [hcall, Phase.stepsLeft, Phase.pending]
    | stops hactor =>
        have hserves : (Actor.stopped : Actor T).serves ≠ some t := by
          simp [Actor.serves]
        have hrank : ({ node with
            actor := .stopped, queue := [], connected := false } :
              Node T).rank t = (node.calls t).phase.stepsLeft :=
          rank_dropped List.not_mem_nil hserves
        rw [hrank]
        exact phase_stepsLeft_le hmatched hpending
    | loses | abandons | completes => exact le_refl _
    | _ => exact absurd rfl hmove

theorem rank_lt_of_dropped (hactor : next.actor = node.actor)
    (hqueue : next.queue = node.queue) (hout : t ∉ node.queue)
    (hserves : node.actor.serves ≠ some t)
    (hless : (next.calls t).phase.stepsLeft <
      (node.calls t).phase.stepsLeft) : next.rank t < node.rank t := by
  rw [rank_dropped hout hserves,
    rank_dropped (by rwa [hqueue]) (by rwa [hactor])]
  exact hless

theorem rank_lt_of_decides (hmatched : node.Matched D)
    (hactor : node.actor = .awaitingDecision u)
    (hrunning : (node.calls u).phase = .running) {decision : ShardWrite}
    (hpending : (node.calls t).phase.pending = true) :
    Node.rank (node.set u { node.calls u with
        phase := .sendingDecision, decided := some decision }) t <
      node.rank t := by
  refine rank_lt_of_serving hmatched (congrArg Actor.serves hactor) rfl
    (Or.inl (congrArg Actor.serves hactor))
    (fun v hne => Node.calls_set_ne node _ hne) ?_ hpending
  have hleft : node.stepsLeft = 7 := by
    simp [stepsLeft, hactor, hrunning, Phase.decisionSteps]
  have hnext : Node.stepsLeft (node.set u { node.calls u with
      phase := .sendingDecision, decided := some decision }) = 6 := by
    simp [stepsLeft, Node.set, hactor, Phase.decisionSteps]
  omega

omit [DecidableEq T] in
theorem receiving_of_idle (hserves : node.actor.serves = none)
    (hactor : node.actor ≠ .stopped) : node.actor = .receiving := by
  cases hwhere : node.actor <;> simp_all [Actor.serves]

/-- With a job to serve the actor has a step, unless the callback is still
running. -/
theorem exists_actor_step (hmatched : node.Matched D) (tables : Tables)
    (free : ℤ → Prop) (hserves : node.actor.serves = some u) :
    (∃ next, Acts D tables free node .actor next none) ∨
      node.actor = .awaitingDecision u ∧ (node.calls u).phase = .running := by
  have hloading : ∀ {actor v}, node.actor = actor → Loading actor v →
      ∃ next, Acts D tables free node .actor next none :=
    fun heq hcall => ⟨_, .loadFails (heq ▸ hcall) ""⟩
  have hwriting : ∀ {actor v}, node.actor = actor → Writing actor v →
      ∃ next, Acts D tables free node .actor next none :=
    fun heq hcall => ⟨_, .writeFails (heq ▸ hcall) ""⟩
  have hfits := hmatched.fits u hserves
  cases hactor : node.actor with
  | receiving | stopped =>
      rw [hactor] at hserves
      cases hserves
  | beginning v => exact Or.inl (hloading hactor (.beginning v))
  | locking v => exact Or.inl (hloading hactor (.locking v))
  | readingHead v => exact Or.inl (hloading hactor (.readingHead v))
  | readingRecords v cursor =>
      exact Or.inl (hloading hactor (.readingRecords v cursor))
  | handing v state =>
      rw [hactor] at hserves hfits
      cases hserves
      rcases hfits with hexpects | hover
      · exact Or.inl ⟨_, .hands hactor hexpects⟩
      · exact Or.inl ⟨_, .unhanded hactor hover⟩
  | awaitingDecision v =>
      rw [hactor] at hserves hfits
      cases hserves
      rcases hfits with (hrunning | hsending) | hover
      · exact Or.inr ⟨rfl, hrunning⟩
      · have hcoherent := hmatched.coherent u
        simp only [Call.Coherent, hsending] at hcoherent
        rcases hcoherent with ⟨_, decision, _, hdecided⟩
        exact Or.inl ⟨_, .ships hactor hsending hdecided⟩
      · exact Or.inl ⟨_, .undecided hactor hover⟩
  | insertingRecord v cursor row =>
      exact Or.inl (hwriting hactor (.insertingRecord v cursor row))
  | insertingHead v row =>
      exact Or.inl (hwriting hactor (.insertingHead v row))
  | committing v => exact Or.inl (hwriting hactor (.committing v))
  | listing v => exact Or.inl ⟨_, .listFails hactor ""⟩
  | ended v answer => exact Or.inl ⟨_, .notes hactor⟩
  | answering v answer =>
      rw [hactor] at hserves hfits
      cases hserves
      rcases hfits with hexpects | hover
      · rcases Answer.expects.answers hexpects with ⟨phase, hanswers⟩
        exact Or.inl ⟨_, .answers hactor hanswers⟩
      · exact Or.inl ⟨_, .unanswered hactor hover⟩

/-- As long as a call made is not over, the store or its callers can take a
step of their own that brings it nearer to its answer. -/
theorem exists_step (hmatched : node.Matched D) (tables : Tables)
    (free : ℤ → Prop) (hpending : (node.calls t).phase.pending = true) :
    ∃ move next, move.own = true ∧ Acts D tables free node move next none ∧
      next.rank t < node.rank t := by
  have hactorStep : ∀ next, Acts D tables free node .actor next none →
      ∃ move next, move.own = true ∧ Acts D tables free node move next none ∧
        next.rank t < node.rank t := fun next hacts =>
    ⟨.actor, next, rfl, hacts, rank_lt_of_actor hmatched hacts hpending⟩
  cases hserves : node.actor.serves with
  | some u =>
      rcases exists_actor_step hmatched tables free hserves with
        ⟨next, hacts⟩ | ⟨hactor, hrunning⟩
      · exact hactorStep next hacts
      · refine ⟨.caller u, _, rfl, .decides hrunning (.ok none), ?_⟩
        exact rank_lt_of_decides hmatched hactor hrunning hpending
  | none =>
      cases hqueue : node.queue with
      | cons u rest =>
          by_cases hstopped : node.actor = .stopped
          · rw [hmatched.drained hstopped] at hqueue
            cases hqueue
          · exact hactorStep _ (.receives (receiving_of_idle hserves hstopped)
              hqueue)
      | nil =>
          have hout : t ∉ node.queue := by simp [hqueue]
          have hidle : node.actor.serves ≠ some t := by simp [hserves]
          rcases Phase.cases_of_pending hpending with
            hrunning | hsending | hwaiting
          · refine ⟨.caller t, _, rfl, .decides hrunning (.ok none), ?_⟩
            refine rank_lt_of_dropped rfl rfl hout hidle ?_
            simp [hrunning, Phase.stepsLeft]
          · refine ⟨.caller t, _, rfl, .unsent hsending hout hidle, ?_⟩
            refine rank_lt_of_dropped rfl rfl hout hidle ?_
            simp [hsending, Phase.stepsLeft]
          · refine ⟨.caller t, _, rfl, .orphaned hwaiting hout hidle, ?_⟩
            refine rank_lt_of_dropped rfl rfl hout hidle ?_
            have hover := Phase.pending_of_over (D.over_failed t actorGone)
            simp [Phase.stepsLeft_eq_zero hover,
              Phase.stepsLeft_pos hpending]

end Node

end Decern.Postgres
