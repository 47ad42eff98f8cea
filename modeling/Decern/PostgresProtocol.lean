import Decern.PostgresActor
import Mathlib.Tactic

/-!
# The actor and its callers meet

A call that is not over is queued, or is the one the actor serves, or its
actor has stopped; and a served call is where the actor's step expects it.
From this, no two of them wait for one another on different channels, a
callback runs once, and a call made is answered.
-/

namespace Decern.Postgres

variable {T : Type}

/-! ## Where the two are -/

/-- The phase a caller served is in, unless it is gone. -/
def Answer.expects : Answer → Phase → Prop
  | .unloaded _, phase => phase = .awaitingLoaded
  | .ran _, phase => phase = .awaitingDone
  | .listed _, phase => phase = .awaitingList

def Actor.expects : Actor T → Phase → Prop
  | .receiving, _ | .stopped, _ => False
  | .beginning _, phase | .locking _, phase | .readingHead _, phase
  | .readingRecords _ _, phase | .handing _ _, phase =>
      phase = .awaitingLoaded
  | .awaitingDecision _, phase => phase = .running ∨ phase = .sendingDecision
  | .insertingRecord _ _ _, phase | .insertingHead _ _, phase
  | .committing _, phase => phase = .awaitingDone
  | .listing _, phase => phase = .awaitingList
  | .ended _ answer, phase | .answering _ answer, phase =>
      answer.expects phase

/-- What a call has seen and decided, by where it is. -/
def Call.Coherent (call : Call) : Prop :=
  match call.phase with
  | .uncalled | .awaitingLoaded | .awaitingList =>
      call.saw = [] ∧ call.decided = none
  | .running => (∃ seen, call.saw = [seen]) ∧ call.decided = none
  | .sendingDecision | .awaitingDone =>
      ∃ seen decision, call.saw = [seen] ∧ call.decided = some decision
  | .returned _ | .listed _ | .gone => call.saw.length ≤ 1

structure Node.Matched (D : Deployment T) (node : Node T) : Prop where
  queued : ∀ t ∈ node.queue,
    (node.calls t).phase = D.awaiting t ∨ (node.calls t).phase.over = true
  distinct : node.queue.Nodup
  apart : ∀ t, node.actor.serves = some t → t ∉ node.queue
  fits : ∀ t, node.actor.serves = some t →
    node.actor.expects (node.calls t).phase ∨
      (node.calls t).phase.over = true
  held : ∀ t, (node.calls t).phase.pending = true →
    t ∈ node.queue ∨ node.actor.serves = some t ∨ node.actor = .stopped
  drained : node.actor = .stopped → node.queue = []
  coherent : ∀ t, (node.calls t).Coherent

/-! ## Small facts -/

@[simp] theorem Phase.pending_of_over {phase : Phase}
    (hover : phase.over = true) : phase.pending = false := by
  cases phase <;> simp_all [Phase.over, Phase.pending]

theorem Call.Coherent.saw_le {call : Call} (hcall : call.Coherent) :
    call.saw.length ≤ 1 := by
  unfold Call.Coherent at hcall
  split at hcall <;> grind

theorem Call.Coherent.fresh {call : Call} (hcall : call.Coherent)
    (hphase : call.phase = .awaitingLoaded) :
    call.saw = [] ∧ call.decided = none := by
  simpa [Call.Coherent, hphase] using hcall

theorem Call.Coherent.over {call : Call} (hcall : call.Coherent)
    {phase : Phase} (hover : phase.over = true) :
    Call.Coherent { call with phase := phase } := by
  have hsaw := hcall.saw_le
  cases phase <;> simp_all [Call.Coherent, Phase.over]

theorem Call.Coherent.decide {call : Call} (hcall : call.Coherent)
    (hphase : call.phase = .running) (decision : ShardWrite) :
    Call.Coherent
      { call with phase := .sendingDecision, decided := some decision } := by
  simp only [Call.Coherent, hphase] at hcall
  rcases hcall with ⟨⟨seen, hsaw⟩, _⟩
  exact ⟨seen, decision, hsaw, rfl⟩

theorem Call.Coherent.send {call : Call} (hcall : call.Coherent)
    (hphase : call.phase = .sendingDecision) :
    Call.Coherent { call with phase := .awaitingDone } := by
  simpa only [Call.Coherent, hphase] using hcall

theorem Answers.over {answer : Answer} {phase last : Phase}
    (hanswers : Answers answer phase last) : last.over = true := by
  cases hanswers <;> rfl

theorem Answers.present {answer : Answer} {phase last : Phase}
    (hanswers : Answers answer phase last) : last.present = true := by
  cases hanswers <;> rfl

section

variable [DecidableEq T]

@[simp] theorem Node.calls_set_self (node : Node T) (t : T) (call : Call) :
    (node.set t call).calls t = call := by
  simp [Node.set]

theorem Node.calls_set_ne (node : Node T) {t u : T} (call : Call)
    (hne : u ≠ t) : (node.set t call).calls u = node.calls u := by
  simp [Node.set, Function.update_of_ne hne]

@[simp] theorem Node.calls_move_self (node : Node T) (t : T) (phase : Phase) :
    (node.move t phase).calls t = { node.calls t with phase := phase } := by
  simp [Node.move]

theorem Node.calls_move_ne (node : Node T) {t u : T} (phase : Phase)
    (hne : u ≠ t) : (node.move t phase).calls u = node.calls u := by
  simp [Node.move, Node.calls_set_ne node _ hne]

end

@[simp] theorem Deployment.serves_received (D : Deployment T) (t : T) :
    (D.received t).serves = some t := by
  unfold Deployment.received
  split <;> rfl

theorem Deployment.expects_received (D : Deployment T) (t : T) :
    (D.received t).expects (D.awaiting t) := by
  unfold Deployment.received Deployment.awaiting
  split <;> rfl

@[simp] theorem Deployment.over_failed (D : Deployment T) (t : T)
    (e : StoreError) :
    (D.failed t e).over = true := by
  unfold Deployment.failed
  split <;> rfl

theorem Deployment.awaiting_fresh (D : Deployment T) {call : Call} {t : T}
    (hcoherent : call.Coherent)
    (hcall : call.phase = .uncalled) :
    Call.Coherent { call with phase := D.awaiting t } := by
  unfold Deployment.awaiting
  split <;> simpa [Call.Coherent, hcall] using hcoherent

/-- A decision taken leaves the actor with the call, which waits for `done`. -/
theorem Node.decide_serves (node : Node T) (t : T) (decision : ShardWrite) :
    (node.decide t decision).actor.serves = some t ∧
      (node.decide t decision).actor.expects .awaitingDone ∧
      (node.decide t decision).queue = node.queue ∧
      (node.decide t decision).calls = node.calls := by
  rcases decision with e | write
  · exact ⟨rfl, rfl, rfl, rfl⟩
  · rcases write with _ | ⟨cursor, record⟩
    · exact ⟨rfl, rfl, rfl, rfl⟩
    · simp only [Node.decide]
      split <;> exact ⟨rfl, rfl, rfl, rfl⟩

theorem Node.recordInserted_serves (D : Deployment T) (node : Node T) (t : T)
    (cursor : HeadCursor) (row : RecordRow) :
    (node.recordInserted D t cursor row).actor.serves = some t ∧
      (node.recordInserted D t cursor row).actor.expects .awaitingDone ∧
      (node.recordInserted D t cursor row).queue = node.queue ∧
      (node.recordInserted D t cursor row).calls = node.calls := by
  simp only [Node.recordInserted]
  split <;> exact ⟨rfl, rfl, rfl, rfl⟩

theorem Loading.expects {actor : Actor T} {t : T} (hloading : Loading actor t) :
    actor.serves = some t ∧
      ∀ phase, actor.expects phase → phase = .awaitingLoaded := by
  cases hloading <;> exact ⟨rfl, fun _ => id⟩

theorem Writing.expects {actor : Actor T} {t : T} (hwriting : Writing actor t) :
    actor.serves = some t ∧
      ∀ phase, actor.expects phase → phase = .awaitingDone := by
  cases hwriting <;> exact ⟨rfl, fun _ => id⟩

theorem not_expects_uncalled (actor : Actor T) :
    ¬ actor.expects .uncalled := by
  cases actor with
  | ended t answer | answering t answer =>
      cases answer <;> simp [Actor.expects, Answer.expects]
  | _ => simp [Actor.expects]

theorem expects_sendingDecision {actor : Actor T}
    (hexpects : actor.expects .running) : actor.expects .sendingDecision := by
  cases actor with
  | ended t answer | answering t answer =>
      cases answer <;> cases hexpects
  | awaitingDecision t => exact Or.inr rfl
  | _ => cases hexpects

/-! ## Steps by what they change -/

namespace Node.Matched

variable {D : Deployment T} {node next : Node T}

/-- The actor goes on with the call it serves. -/
theorem serve {t : T} (hmatched : node.Matched D)
    (hserves : node.actor.serves = some t)
    (hnext : next.actor.serves = some t) (hqueue : next.queue = node.queue)
    (hothers : ∀ u ≠ t, next.calls u = node.calls u)
    (hfits : next.actor.expects (next.calls t).phase ∨
      (next.calls t).phase.over = true)
    (hcoherent : (next.calls t).Coherent) : next.Matched D where
  queued := by
    intro u hu
    rw [hqueue] at hu
    have hne : u ≠ t := fun heq => hmatched.apart t hserves (heq ▸ hu)
    rw [hothers u hne]
    exact hmatched.queued u hu
  distinct := by
    rw [hqueue]
    exact hmatched.distinct
  apart := by
    intro u hu
    rw [hnext] at hu
    cases hu
    rw [hqueue]
    exact hmatched.apart t hserves
  fits := by
    intro u hu
    rw [hnext] at hu
    cases hu
    exact hfits
  held := by
    intro u hu
    by_cases hne : u = t
    · right; left
      rw [hnext, hne]
    · rw [hothers u hne] at hu
      rw [hqueue, hnext]
      rcases hmatched.held u hu with hin | hserved | hstopped
      · exact Or.inl hin
      · exact Or.inr (Or.inl (hserves.symm.trans hserved))
      · rw [hstopped] at hserves
        cases hserves
  drained := by
    intro hstopped
    rw [hstopped] at hnext
    cases hnext
  coherent := by
    intro u
    by_cases hne : u = t
    · rw [hne]
      exact hcoherent
    · rw [hothers u hne]
      exact hmatched.coherent u

/-- A step of the actor alone. -/
theorem proceed {t : T} (hmatched : node.Matched D)
    (hserves : node.actor.serves = some t)
    (hnext : next.actor.serves = some t) (hqueue : next.queue = node.queue)
    (hcalls : next.calls = node.calls)
    (hexpects : ∀ phase, node.actor.expects phase →
      next.actor.expects phase) : next.Matched D := by
  apply hmatched.serve hserves hnext hqueue
  · intro u _
    rw [hcalls]
  · rw [hcalls]
    exact (hmatched.fits t hserves).imp_left (hexpects _)
  · rw [hcalls]
    exact hmatched.coherent t

/-- The actor is done with a call that is over. -/
theorem release {t : T} (hmatched : node.Matched D)
    (hserves : node.actor.serves = some t)
    (hnext : next.actor = .receiving) (hqueue : next.queue = node.queue)
    (hothers : ∀ u ≠ t, next.calls u = node.calls u)
    (hover : (next.calls t).phase.over = true)
    (hcoherent : (next.calls t).Coherent) : next.Matched D where
  queued := by
    intro u hu
    rw [hqueue] at hu
    have hne : u ≠ t := fun heq => hmatched.apart t hserves (heq ▸ hu)
    rw [hothers u hne]
    exact hmatched.queued u hu
  distinct := by
    rw [hqueue]
    exact hmatched.distinct
  apart := by
    intro u hu
    rw [hnext] at hu
    cases hu
  fits := by
    intro u hu
    rw [hnext] at hu
    cases hu
  held := by
    intro u hu
    by_cases hne : u = t
    · rw [hne, Phase.pending_of_over hover] at hu
      cases hu
    · rw [hothers u hne] at hu
      rw [hqueue]
      rcases hmatched.held u hu with hin | hserved | hstopped
      · exact Or.inl hin
      · rw [hserves] at hserved
        exact absurd (Option.some.inj hserved).symm hne
      · rw [hstopped] at hserves
        cases hserves
  drained := by
    intro hstopped
    rw [hnext] at hstopped
    cases hstopped
  coherent := by
    intro u
    by_cases hne : u = t
    · rw [hne]
      exact hcoherent
    · rw [hothers u hne]
      exact hmatched.coherent u

/-- One call moves, the actor and the queue stay. -/
theorem moveCall {t : T} (hmatched : node.Matched D)
    (hactor : next.actor = node.actor) (hqueue : next.queue = node.queue)
    (hothers : ∀ u ≠ t, next.calls u = node.calls u)
    (hqueued : t ∈ node.queue → (next.calls t).phase = D.awaiting t ∨
      (next.calls t).phase.over = true)
    (hfits : node.actor.serves = some t →
      node.actor.expects (next.calls t).phase ∨
        (next.calls t).phase.over = true)
    (hpending : (next.calls t).phase.pending = true →
      (node.calls t).phase.pending = true)
    (hcoherent : (next.calls t).Coherent) : next.Matched D where
  queued := by
    intro u hu
    rw [hqueue] at hu
    by_cases hne : u = t
    · subst hne
      exact hqueued hu
    · rw [hothers u hne]
      exact hmatched.queued u hu
  distinct := by
    rw [hqueue]
    exact hmatched.distinct
  apart := by
    rw [hactor, hqueue]
    exact hmatched.apart
  fits := by
    intro u hu
    rw [hactor] at hu ⊢
    by_cases hne : u = t
    · subst hne
      exact hfits hu
    · rw [hothers u hne]
      exact hmatched.fits u hu
  held := by
    intro u hu
    rw [hactor, hqueue]
    by_cases hne : u = t
    · subst hne
      exact hmatched.held u (hpending hu)
    · rw [hothers u hne] at hu
      exact hmatched.held u hu
  drained := by
    rw [hactor, hqueue]
    exact hmatched.drained
  coherent := by
    intro u
    by_cases hne : u = t
    · rw [hne]
      exact hcoherent
    · rw [hothers u hne]
      exact hmatched.coherent u

theorem congr (hmatched : node.Matched D) (hactor : next.actor = node.actor)
    (hqueue : next.queue = node.queue) (hcalls : next.calls = node.calls) :
    next.Matched D where
  queued := by
    rw [hqueue, hcalls]
    exact hmatched.queued
  distinct := by
    rw [hqueue]
    exact hmatched.distinct
  apart := by
    rw [hactor, hqueue]
    exact hmatched.apart
  fits := by
    rw [hactor, hcalls]
    exact hmatched.fits
  held := by
    rw [hactor, hqueue, hcalls]
    exact hmatched.held
  drained := by
    rw [hactor, hqueue]
    exact hmatched.drained
  coherent := by
    rw [hcalls]
    exact hmatched.coherent

/-- The call is over, the actor may go on as it likes. -/
theorem giveUp {t : T} (hmatched : node.Matched D)
    (hserves : node.actor.serves = some t)
    (hnext : next.actor.serves = some t) (hqueue : next.queue = node.queue)
    (hcalls : next.calls = node.calls)
    (hover : (node.calls t).phase.over = true) : next.Matched D := by
  apply hmatched.serve hserves hnext hqueue
  · intro u _
    rw [hcalls]
  · rw [hcalls]
    exact Or.inr hover
  · rw [hcalls]
    exact hmatched.coherent t

/-- A call not made is neither queued nor served. -/
theorem uncalled_apart {t : T} (hmatched : node.Matched D)
    (hcall : (node.calls t).phase = .uncalled) :
    t ∉ node.queue ∧ node.actor.serves ≠ some t := by
  constructor
  · intro hin
    have hqueued := hmatched.queued t hin
    rw [hcall] at hqueued
    rcases hqueued with hawaiting | hover
    · unfold Deployment.awaiting at hawaiting
      split at hawaiting <;> cases hawaiting
    · cases hover
  · intro hserves
    have hfits := hmatched.fits t hserves
    rw [hcall] at hfits
    rcases hfits with hexpects | hover
    · exact not_expects_uncalled _ hexpects
    · cases hover

/-- A call queued is at no phase a meeting is for. -/
theorem queue_apart {t : T} (hmatched : node.Matched D)
    (hcall : (node.calls t).phase = .running ∨
      (node.calls t).phase = .sendingDecision ∨
      (node.calls t).phase = .awaitingDone) : t ∉ node.queue := by
  intro hin
  have hqueued := hmatched.queued t hin
  rcases hqueued with hawaiting | hover
  · unfold Deployment.awaiting at hawaiting
    split at hawaiting <;> rw [hawaiting] at hcall <;> simp at hcall
  · rcases hcall with hcall | hcall | hcall <;> rw [hcall] at hover <;>
      cases hover

theorem receive {t : T} {rest : List T} (hmatched : node.Matched D)
    (hactor : node.actor = .receiving) (hqueue : node.queue = t :: rest) :
    Node.Matched D { node with actor := D.received t, queue := rest } where
  queued := by
    intro u hu
    exact hmatched.queued u (hqueue ▸ List.mem_cons_of_mem t hu)
  distinct := by
    have hdistinct := hmatched.distinct
    rw [hqueue] at hdistinct
    exact hdistinct.of_cons
  apart := by
    intro u hserves
    have hdistinct := hmatched.distinct
    rw [hqueue] at hdistinct
    rw [D.serves_received] at hserves
    cases hserves
    exact (List.nodup_cons.mp hdistinct).1
  fits := by
    intro u hserves
    rw [D.serves_received] at hserves
    cases hserves
    apply (hmatched.queued t (by simp [hqueue])).imp_left
    intro hphase
    rw [hphase]
    exact D.expects_received t
  held := by
    intro u hu
    rcases hmatched.held u hu with hin | hserved | hstopped
    · rw [hqueue] at hin
      rcases List.mem_cons.mp hin with hhead | hlater
      · right; left
        rw [hhead]
        exact D.serves_received t
      · exact Or.inl hlater
    · rw [hactor] at hserved
      cases hserved
    · rw [hactor] at hstopped
      cases hstopped
  drained := by
    intro hstopped
    have hserves := D.serves_received t
    rw [show D.received t = .stopped from hstopped] at hserves
    cases hserves
  coherent := hmatched.coherent

/-- The thread stops. -/
theorem stop (hmatched : node.Matched D) :
    Node.Matched D
      { node with actor := .stopped, queue := [], connected := false } where
  queued := by simp
  distinct := List.nodup_nil
  apart := by simp
  fits := by
    intro u hserves
    cases hserves
  held := fun _ _ => Or.inr (Or.inr rfl)
  drained := fun _ => rfl
  coherent := hmatched.coherent

/-! ## Every step keeps them matched -/

/-- The call an actor serves is where the actor expects it, if it is not
over. -/
theorem expected {t : T} (hmatched : node.Matched D)
    (hserves : node.actor.serves = some t)
    (hphase : (node.calls t).phase.over = false) :
    node.actor.expects (node.calls t).phase := by
  rcases hmatched.fits t hserves with hexpects | hover
  · exact hexpects
  · rw [hphase] at hover
    cases hover

variable [DecidableEq T]

theorem enqueue {t : T} (hmatched : node.Matched D)
    (hcall : (node.calls t).phase = .uncalled)
    (hactor : node.actor ≠ .stopped) :
    Node.Matched D
      { node.move t (D.awaiting t) with queue := node.queue ++ [t] } where
  queued := by
    intro u hu
    by_cases hne : u = t
    · left
      simp [hne]
    · simp only [Node.calls_move_ne node _ hne]
      apply hmatched.queued u
      simpa [hne] using hu
  distinct := by
    apply hmatched.distinct.append (List.nodup_singleton t)
    simpa using (hmatched.uncalled_apart hcall).1
  apart := by
    intro u hserves hu
    rcases List.mem_append.mp hu with hin | hlast
    · exact hmatched.apart u hserves hin
    · rw [List.mem_singleton.mp hlast] at hserves
      exact (hmatched.uncalled_apart hcall).2 hserves
  fits := by
    intro u hserves
    have hne : u ≠ t := fun heq =>
      (hmatched.uncalled_apart hcall).2 (heq ▸ hserves)
    simp only [Node.calls_move_ne node _ hne]
    exact hmatched.fits u hserves
  held := by
    intro u hu
    by_cases hne : u = t
    · left
      simp [hne]
    · simp only [Node.calls_move_ne node _ hne] at hu
      rcases hmatched.held u hu with hin | hserved | hstopped
      · exact Or.inl (List.mem_append_left _ hin)
      · exact Or.inr (Or.inl hserved)
      · exact Or.inr (Or.inr hstopped)
  drained := fun hstopped => absurd hstopped hactor
  coherent := by
    intro u
    by_cases hne : u = t
    · subst hne
      simpa using D.awaiting_fresh (hmatched.coherent u) hcall
    · simp only [Node.calls_move_ne node _ hne]
      exact hmatched.coherent u

theorem refuse {t : T} (hmatched : node.Matched D) {phase : Phase}
    (hover : phase.over = true) : (node.move t phase).Matched D := by
  refine hmatched.moveCall rfl rfl
    (fun u hne => Node.calls_move_ne node _ hne) ?_ ?_ ?_ ?_
  · intro _
    exact Or.inr (by simpa using hover)
  · intro _
    exact Or.inr (by simpa using hover)
  · simp [hover]
  · simpa using (hmatched.coherent t).over hover

theorem step {tables : Tables} {free : ℤ → Prop} {move : Move T}
    {out : Option (Tx T)} (hmatched : node.Matched D)
    (hacts : Acts D tables free node move next out) : next.Matched D := by
  cases hacts with
  | queued hcall hactor => exact hmatched.enqueue hcall hactor
  | full | unserved => exact hmatched.refuse (D.over_failed _ _)
  | receives hactor hqueue => exact hmatched.receive hactor hqueue
  | begins hactor | locks hactor | readsRecords hactor =>
      refine hmatched.proceed (congrArg Actor.serves hactor) rfl rfl rfl ?_
      rw [hactor]
      exact fun _ => id
  | readsHead hactor =>
      refine hmatched.proceed (congrArg Actor.serves hactor) ?_ rfl rfl ?_
      · simp only [Node.headRead]
        split <;> rfl
      · rw [hactor]
        simp only [Node.headRead]
        split <;> exact fun _ => id
  | headUnreadable hactor | recordsUnreadable hactor =>
      refine hmatched.proceed (congrArg Actor.serves hactor) rfl rfl rfl ?_
      rw [hactor]
      exact fun _ => id
  | loadFails hactor =>
      exact hmatched.proceed hactor.expects.1 rfl rfl rfl hactor.expects.2
  | hands hactor hcall =>
      refine hmatched.serve (congrArg Actor.serves hactor) rfl rfl
        (fun u hne => Node.calls_set_ne node _ hne) ?_ ?_
      · left
        simp [Actor.expects]
      · have hfresh := (hmatched.coherent _).fresh hcall
        simp [Call.Coherent, hfresh.1, hfresh.2]
  | unhanded hactor hcall | undecided hactor hcall =>
      exact hmatched.giveUp (congrArg Actor.serves hactor) rfl rfl rfl hcall
  | decides hcall decision =>
      refine hmatched.moveCall rfl rfl
        (fun u hne => Node.calls_set_ne node _ hne) ?_ ?_ ?_ ?_
      · intro hin
        exact absurd hin (hmatched.queue_apart (Or.inl hcall))
      · intro hserves
        left
        have hexpects := hmatched.expected hserves (by rw [hcall]; rfl)
        rw [hcall] at hexpects
        simpa using expects_sendingDecision hexpects
      · simp [hcall, Phase.pending]
      · simpa using (hmatched.coherent _).decide hcall decision
  | ships hactor hcall hdecided =>
      rcases Node.decide_serves (node.move _ .awaitingDone) _ _ with
        ⟨hserves, hexpects, hqueue, hcalls⟩
      refine hmatched.serve (congrArg Actor.serves hactor) hserves hqueue
        ?_ ?_ ?_
      · intro u hne
        rw [hcalls]
        exact Node.calls_move_ne node _ hne
      · rw [hcalls]
        left
        simpa using hexpects
      · rw [hcalls]
        simpa using (hmatched.coherent _).send hcall
  | insertsRecord hactor =>
      rcases Node.recordInserted_serves D node _ _ _ with
        ⟨hserves, hexpects, hqueue, hcalls⟩
      refine hmatched.proceed (congrArg Actor.serves hactor) hserves hqueue
        hcalls ?_
      rw [hactor]
      rintro phase rfl
      exact hexpects
  | insertsHead hactor | commits hactor | lists hactor | listFails hactor
  | notes hactor =>
      refine hmatched.proceed (congrArg Actor.serves hactor) rfl rfl rfl ?_
      rw [hactor]
      exact fun _ => id
  | writeFails hactor =>
      exact hmatched.proceed hactor.expects.1 rfl rfl rfl hactor.expects.2
  | answers hactor hcall =>
      have hover := hcall.over
      refine hmatched.release (congrArg Actor.serves hactor) rfl rfl
        (fun u hne => Node.calls_move_ne node _ hne) ?_ ?_
      · simpa using hover
      · simpa using (hmatched.coherent _).over hover
  | unanswered hactor hcall =>
      exact hmatched.release (congrArg Actor.serves hactor) rfl rfl
        (fun u _ => rfl) hcall (hmatched.coherent _)
  | unsent hcall hqueue hactor =>
      refine hmatched.moveCall rfl rfl
        (fun u hne => Node.calls_move_ne node _ hne) ?_ ?_ ?_ ?_
      · exact fun hin => absurd hin hqueue
      · exact fun hserves => absurd hserves hactor
      · simp [hcall, Phase.pending]
      · simpa using (hmatched.coherent _).send hcall
  | orphaned => exact hmatched.refuse (D.over_failed _ _)
  | leaves => exact hmatched.refuse rfl
  | stops => exact hmatched.stop
  | loses | abandons | completes => exact hmatched.congr rfl rfl rfl

end Node.Matched

/-! ## What they wait for -/

/-- The channels of one job. -/
inductive Channel where
  | loaded
  | decision
  | done
  | resp
  deriving DecidableEq, Repr

/-- The rendezvous the actor waits in, and with whom. -/
def Actor.waits : Actor T → Option (T × Channel)
  | .handing t _ | .answering t (.unloaded _) => some (t, .loaded)
  | .awaitingDecision t => some (t, .decision)
  | .answering t (.ran _) => some (t, .done)
  | .answering t (.listed _) => some (t, .resp)
  | _ => none

/-- The rendezvous a caller waits in. -/
def Phase.waits : Phase → Option Channel
  | .awaitingLoaded => some .loaded
  | .sendingDecision => some .decision
  | .awaitingDone => some .done
  | .awaitingList => some .resp
  | _ => none

/-- Where the actor and a caller wait for one another, they wait on one
channel. -/
theorem Node.Matched.meets {D : Deployment T} {node : Node T} {t : T}
    {mine theirs : Channel} (hmatched : node.Matched D)
    (hactor : node.actor.waits = some (t, mine))
    (hcall : (node.calls t).phase.waits = some theirs) : mine = theirs := by
  have hover : (node.calls t).phase.over = false := by
    cases hphase : (node.calls t).phase <;> rw [hphase] at hcall <;>
      first | rfl | cases hcall
  have hexpects : ∀ {actor : Actor T}, node.actor = actor →
      actor.serves = some t → actor.expects (node.calls t).phase := by
    intro actor heq hserves
    subst heq
    exact hmatched.expected hserves hover
  cases hwhere : node.actor with
  | handing u state =>
      rw [hwhere] at hactor
      cases hactor
      rw [show (node.calls t).phase = .awaitingLoaded from
        hexpects hwhere rfl] at hcall
      exact Option.some.inj hcall
  | awaitingDecision u =>
      rw [hwhere] at hactor
      cases hactor
      rcases hexpects hwhere rfl with hphase | hphase <;>
        rw [hphase] at hcall <;> cases hcall
      rfl
  | answering u answer =>
      rw [hwhere] at hactor
      cases answer <;> cases hactor
      · rw [show (node.calls t).phase = .awaitingLoaded from
          hexpects hwhere rfl] at hcall
        exact Option.some.inj hcall
      · rw [show (node.calls t).phase = .awaitingDone from
          hexpects hwhere rfl] at hcall
        exact Option.some.inj hcall
      · rw [show (node.calls t).phase = .awaitingList from
          hexpects hwhere rfl] at hcall
        exact Option.some.inj hcall
  | _ =>
      rw [hwhere] at hactor
      cases hactor

end Decern.Postgres
