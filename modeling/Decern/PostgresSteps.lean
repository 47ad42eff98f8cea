import Decern.PostgresSessions
import Mathlib.Tactic

/-!
# What one step of a process may change

A step takes a lock that was free, commits the transaction the database was
told to commit, and makes no call succeed but the one it commits for.  A call
not yet handed the shard has seen nothing.
-/

namespace Decern.Postgres

variable {T : Type}

theorem Deployment.failed_ne_ok (D : Deployment T) (t : T) (e : StoreError) :
    D.failed t e ≠ .returned (.ok ()) := by
  unfold Deployment.failed
  split <;> simp

theorem Deployment.awaiting_ne_ok (D : Deployment T) (t : T) :
    D.awaiting t ≠ .returned (.ok ()) := by
  unfold Deployment.awaiting
  split <;> simp

namespace Node

variable {D : Deployment T} {node next : Node T} {tables : Tables}
  {free : ℤ → Prop}

/-! ## The call and the lock of a transaction -/

/-- The call the database holds a transaction for, and its lock. -/
def held (node : Node T) : Option (T × Option ℤ) :=
  node.session.map fun tx => (tx.call, tx.lock)

theorem lock_eq_some_iff {key : ℤ} :
    node.lock = some key ↔ ∃ t, node.held = some (t, some key) := by
  cases hsession : node.session with
  | none => simp [lock, held, hsession]
  | some tx => simp [lock, held, hsession]

theorem held_ends {t : T} {answer : Answer} {holding : T × Option ℤ}
    (hheld : (node.ends t answer).held = some holding) :
    node.held = some holding := by
  simp only [held, ends] at hheld
  split at hheld
  · cases hheld
  · exact hheld

theorem held_commits (node : Node T) (t : T) :
    (node.commits t).held = node.held := by
  simp only [held, commits]
  split
  · cases node.session <;> rfl
  · rfl

theorem held_decide {t : T} {decision : ShardWrite} {holding : T × Option ℤ}
    (hheld : (node.decide t decision).held = some holding) :
    node.held = some holding := by
  rcases decision with e | write
  · exact held_ends hheld
  · rcases write with _ | ⟨cursor, record⟩
    · rw [← held_commits node t]
      exact hheld
    · simp only [decide] at hheld
      split at hheld
      · exact held_ends hheld
      · exact hheld

theorem held_recordInserted {t : T} {cursor : HeadCursor} {row : RecordRow}
    {holding : T × Option ℤ}
    (hheld : (node.recordInserted D t cursor row).held = some holding) :
    node.held = some holding := by
  have hwritten : Node.held { node with
      session := node.session.map fun (tx : Tx T) =>
        { tx with record := some row } } = node.held := by
    simp only [held]
    cases node.session <;> rfl
  rw [← hwritten]
  simp only [recordInserted] at hheld
  split at hheld
  · exact held_ends hheld
  · exact hheld

theorem held_headInserted (node : Node T) (t : T) (row : HeadRow) :
    (node.headInserted t row).held = node.held := by
  simp only [headInserted, held_commits]
  simp only [held]
  cases node.session <;> rfl

variable [DecidableEq T] {move : Move T} {out : Option (Tx T)}

/-- A transaction goes on, or has just begun, or has just taken its lock. -/
theorem held_step {holding : T × Option ℤ}
    (hacts : Acts D tables free node move next out)
    (hheld : next.held = some holding) :
    node.held = some holding ∨
      (node.actor = .beginning holding.1 ∧ holding.2 = none) ∨
      ∃ key before, free key ∧ holding.2 = some key ∧
        node.held = some (holding.1, before) := by
  cases hacts with
  | begins hactor =>
      right; left
      cases hheld
      exact ⟨hactor, rfl⟩
  | @locks t hactor hconnected hfree =>
      right; right
      cases hsession : node.session with
      | none =>
          simp only [held, hsession] at hheld
          cases hheld
      | some tx =>
          simp only [held, hsession] at hheld
          cases hheld
          exact ⟨_, tx.lock, hfree, rfl, by simp [held, hsession]⟩
  | headUnreadable | recordsUnreadable | loadFails | unhanded | undecided
  | writeFails | commits => exact Or.inl (held_ends hheld)
  | ships =>
      have hbefore := held_decide hheld
      exact Or.inl hbefore
  | insertsRecord => exact Or.inl (held_recordInserted hheld)
  | insertsHead =>
      rw [held_headInserted] at hheld
      exact Or.inl hheld
  | abandons | completes => cases hheld
  | _ => exact Or.inl hheld

/-- A lock held after a step was held before it or was free. -/
theorem lock_step {key : ℤ} (hacts : Acts D tables free node move next out)
    (hlock : next.lock = some key) : node.lock = some key ∨ free key := by
  rcases lock_eq_some_iff.mp hlock with ⟨t, hheld⟩
  rcases held_step hacts hheld with hbefore | ⟨_, hnone⟩ | htaken
  · exact Or.inl (lock_eq_some_iff.mpr ⟨t, hbefore⟩)
  · cases hnone
  · rcases htaken with ⟨taken, _, hfree, heq, _⟩
    cases heq
    exact Or.inr hfree

/-- The call of a transaction had one, or is the one the actor begins. -/
theorem call_step {tx : Tx T} (hacts : Acts D tables free node move next out)
    (hsession : next.session = some tx) :
    (∃ before, node.session = some before ∧ before.call = tx.call) ∨
      node.actor = .beginning tx.call := by
  have hheld : next.held = some (tx.call, tx.lock) := by
    simp [held, hsession]
  have hcall : ∀ {lock}, node.held = some (tx.call, lock) →
      ∃ before, node.session = some before ∧ before.call = tx.call := by
    intro lock hbefore
    rcases Option.map_eq_some_iff.mp hbefore with ⟨before, hsome, heq⟩
    exact ⟨before, hsome, congrArg Prod.fst heq⟩
  rcases held_step hacts hheld with hbefore | hbegun | htaken
  · exact Or.inl (hcall hbefore)
  · exact Or.inr hbegun.1
  · rcases htaken with ⟨_, _, _, _, hbefore⟩
    exact Or.inl (hcall hbefore)

/-! ## Commits -/

/-- What a step commits is the transaction the database was told to. -/
theorem session_of_out (hsound : node.Sound D tables) {tx : Tx T}
    (hacts : Acts D tables free node move next (some tx)) :
    node.session = some tx ∧ tx.committing = true := by
  cases hacts with
  | commits hactor hconnected hsession =>
      have hinStep := hsound.inStep hconnected
      unfold InStep at hinStep
      rw [hactor] at hinStep
      rcases hinStep with ⟨other, hother, _, hcommitting⟩
      cases hsession.symm.trans hother
      exact ⟨hsession, hcommitting⟩
  | completes hconnected hsession hcommitting => exact ⟨hsession, hcommitting⟩

/-- Once it has committed, a process has no transaction. -/
theorem session_after_out {tx : Tx T}
    (hacts : Acts D tables free node move next (some tx)) :
    next.session = none := by
  cases hacts with
  | commits _ hconnected => simp [ends, hconnected]
  | completes => rfl

/-- The call was answered, or is about to be, that its section ran well. -/
def Succeeded (node : Node T) (t : T) : Prop :=
  (node.calls t).phase = .returned (.ok ()) ∨
    node.actor = .ended t (.ran (.ok ())) ∨
    node.actor = .answering t (.ran (.ok ()))

omit [DecidableEq T] in
theorem Succeeded.congr {t : T} (hnext : next.Succeeded t)
    (hphase : (next.calls t).phase = .returned (.ok ()) →
      (node.calls t).phase = .returned (.ok ()))
    (hended : next.actor = .ended t (.ran (.ok ())) →
      node.actor = .ended t (.ran (.ok ())))
    (hanswering : next.actor = .answering t (.ran (.ok ())) →
      node.Succeeded t) : node.Succeeded t := by
  rcases hnext with hdone | hended' | hanswering'
  · exact Or.inl (hphase hdone)
  · exact Or.inr (Or.inl (hended hended'))
  · exact hanswering hanswering'

/-- A call moved to a phase that is no success succeeded before. -/
theorem succeeded_of_set {t u : T} {call : Call}
    (hphase : call.phase ≠ .returned (.ok ()))
    (hnext : (node.set u call).Succeeded t) : node.Succeeded t := by
  refine hnext.congr ?_ id (fun h => Or.inr (Or.inr h))
  by_cases hsame : t = u
  · subst hsame
    rw [calls_set_self]
    exact fun h => absurd h hphase
  · rw [calls_set_ne node call hsame]
    exact id

omit [DecidableEq T] in
/-- An actor that is not about to answer so makes no call succeed. -/
theorem Succeeded.of_actor {t : T} (hnext : next.Succeeded t)
    (hcalls : next.calls = node.calls)
    (hended : next.actor ≠ .ended t (.ran (.ok ())))
    (hanswering : next.actor ≠ .answering t (.ran (.ok ()))) :
    node.Succeeded t := by
  apply hnext.congr
  · rw [hcalls]
    exact id
  · exact fun h => absurd h hended
  · exact fun h => absurd h hanswering

omit [DecidableEq T] in
theorem decide_fails (node : Node T) (u t : T) (decision : ShardWrite) :
    (node.decide u decision).actor ≠ .ended t (.ran (.ok ())) ∧
      (node.decide u decision).actor ≠ .answering t (.ran (.ok ())) := by
  rcases decision with e | write
  · simp [decide, ends]
  · rcases write with _ | ⟨cursor, record⟩
    · simp [decide, commits]
    · simp only [decide]
      split <;> simp [ends]

omit [DecidableEq T] in
theorem recordInserted_fails (D : Deployment T) (node : Node T) (u t : T)
    (cursor : HeadCursor) (row : RecordRow) :
    (node.recordInserted D u cursor row).actor ≠ .ended t (.ran (.ok ())) ∧
      (node.recordInserted D u cursor row).actor ≠
        .answering t (.ran (.ok ())) := by
  simp only [recordInserted]
  split <;> simp [ends]

/-- A call succeeds by the commit of its transaction. -/
theorem succeeded_step {t : T} (hsound : node.Sound D tables)
    (hacts : Acts D tables free node move next out)
    (hnext : next.Succeeded t) :
    node.Succeeded t ∨ ∃ tx, out = some tx ∧ tx.call = t := by
  cases hacts with
  | queued => exact Or.inl (succeeded_of_set (D.awaiting_ne_ok _) hnext)
  | full | unserved | orphaned =>
      exact Or.inl (succeeded_of_set (D.failed_ne_ok _ _) hnext)
  | unsent | decides | leaves =>
      exact Or.inl (succeeded_of_set (by simp) hnext)
  | @receives u rest hactor =>
      left
      refine hnext.of_actor rfl ?_ ?_ <;>
        rcases D.received_cases u with hbegin | hlist <;> simp_all
  | readsHead =>
      left
      refine hnext.of_actor rfl ?_ ?_ <;>
        (simp only [headRead]; split <;> simp)
  | begins | locks | readsRecords | insertsHead | lists | listFails
  | unanswered | stops | headUnreadable | recordsUnreadable | loadFails
  | unhanded | undecided | writeFails =>
      left
      refine hnext.of_actor rfl ?_ ?_ <;>
        simp [ends, headInserted, commits]
  | @hands u state =>
      left
      have hmoved : (node.set u { node.calls u with
          phase := .running
          saw := (node.calls u).saw ++ [state] }).Succeeded t :=
        hnext.of_actor rfl (by simp) (by simp)
      exact succeeded_of_set (by simp) hmoved
  | @ships u decision =>
      left
      rcases decide_fails (node.move u .awaitingDone) u t decision with
        ⟨hended, hanswering⟩
      have hmoved := hnext.of_actor
        (decide_serves (node.move u .awaitingDone) u decision).2.2.2
        hended hanswering
      exact succeeded_of_set (by simp) hmoved
  | @insertsRecord u cursor row =>
      left
      rcases recordInserted_fails D node u t cursor row with
        ⟨hended, hanswering⟩
      exact hnext.of_actor
        (recordInserted_serves D node u cursor row).2.2.2
        hended hanswering
  | @commits u tx hactor hconnected hsession =>
      rcases hnext with hdone | hended | hanswering
      · exact Or.inl (Or.inl hdone)
      · right
        have hinStep := hsound.inStep hconnected
        unfold InStep at hinStep
        rw [hactor] at hinStep
        rcases hinStep with ⟨other, hother, hcall, _⟩
        cases hsession.symm.trans hother
        cases hended
        exact ⟨tx, rfl, hcall⟩
      · cases hanswering
  | notes hactor =>
      left
      rcases hnext with hdone | hended | hanswering
      · exact Or.inl hdone
      · cases hended
      · cases hanswering
        exact Or.inr (Or.inl hactor)
  | @answers u answer phase hactor hcall =>
      left
      rcases hnext with hdone | hended | hanswering
      · by_cases hsame : t = u
        · subst hsame
          have hphase : phase = .returned (.ok ()) := by simpa using hdone
          subst hphase
          generalize (node.calls t).phase = before at hcall
          cases hcall
          exact Or.inr (Or.inr hactor)
        · left
          rw [← calls_move_ne node phase hsame]
          exact hdone
      · cases hended
      · cases hanswering
  | loses | abandons | completes => exact Or.inl hnext

/-! ## Calls that have seen nothing -/

end Node

/-- The call an actor has not handed the shard to yet. -/
def Actor.early : Actor T → Option T
  | .beginning t | .locking t | .readingHead t | .readingRecords t _
  | .handing t _ => some t
  | _ => none

namespace Node

/-- The calls queued, and the one the actor has not handed the shard to. -/
def Unseen (node : Node T) : Prop :=
  ∀ t, t ∈ node.queue ∨ node.actor.early = some t → (node.calls t).saw = []

theorem Unseen.of_fewer {node next : Node T} (hunseen : node.Unseen)
    (hfewer : ∀ t, t ∈ next.queue ∨ next.actor.early = some t →
      t ∈ node.queue ∨ node.actor.early = some t)
    (hsaw : ∀ t, t ∈ next.queue ∨ next.actor.early = some t →
      (next.calls t).saw = (node.calls t).saw) : next.Unseen := by
  intro t ht
  rw [hsaw t ht]
  exact hunseen t (hfewer t ht)

theorem decide_early (node : Node T) (t : T) (decision : ShardWrite) :
    (node.decide t decision).actor.early = none := by
  rcases decision with e | write
  · rfl
  · rcases write with _ | ⟨cursor, record⟩
    · rfl
    · simp only [decide]
      split <;> rfl

theorem recordInserted_early (D : Deployment T) (node : Node T) (t : T)
    (cursor : HeadCursor) (row : RecordRow) :
    (node.recordInserted D t cursor row).actor.early = none := by
  simp only [recordInserted]
  split <;> rfl

theorem saw_move [DecidableEq T] (node : Node T) (t u : T) (phase : Phase) :
    ((node.move t phase).calls u).saw = (node.calls u).saw := by
  by_cases hsame : u = t
  · subst hsame
    simp
  · rw [calls_move_ne node phase hsame]

variable [DecidableEq T]

theorem Unseen.step {D : Deployment T} {node next : Node T} {tables : Tables}
    {free : ℤ → Prop} {move : Move T} {out : Option (Tx T)}
    (hmatched : node.Matched D) (hunseen : node.Unseen)
    (hacts : Acts D tables free node move next out) : next.Unseen := by
  cases hacts with
  | @queued u hcall =>
      intro t ht
      have hsaw := saw_move node u t (D.awaiting u)
      by_cases hsame : t = u
      · subst hsame
        have hcoherent := hmatched.coherent t
        simp only [Call.Coherent, hcall] at hcoherent
        exact hsaw.trans hcoherent.1
      · refine hsaw.trans (hunseen t ?_)
        rcases ht with hin | hearly
        · exact Or.inl ((List.mem_append.mp hin).resolve_right (by simpa))
        · exact Or.inr hearly
  | full | unserved | unsent | orphaned | leaves =>
      exact hunseen.of_fewer (fun _ => id) (fun t _ => saw_move node _ t _)
  | @receives u rest hactor hqueue =>
      refine hunseen.of_fewer ?_ (fun _ _ => rfl)
      rintro t (hin | hearly)
      · exact Or.inl (hqueue ▸ List.mem_cons_of_mem u hin)
      · left
        rcases D.received_cases u with hbegin | hlist <;>
          simp_all [Actor.early]
  | begins hactor | locks hactor | readsRecords hactor =>
      refine hunseen.of_fewer ?_ (fun _ _ => rfl)
      rw [hactor]
      exact fun t => id
  | readsHead hactor =>
      refine hunseen.of_fewer ?_ (fun _ _ => rfl)
      rw [hactor]
      simp only [headRead]
      split <;> exact fun t => id
  | @hands u state hactor =>
      refine hunseen.of_fewer ?_ ?_
      · rintro t (hin | hearly)
        · exact Or.inl hin
        · cases hearly
      · rintro t (hin | hearly)
        · have hne : t ≠ u := fun heq =>
            hmatched.apart u (congrArg Actor.serves hactor) (heq ▸ hin)
          simp only [calls_set_ne node _ hne]
        · cases hearly
  | @decides u hcall decision =>
      refine hunseen.of_fewer (fun _ => id) ?_
      intro t _
      by_cases hsame : t = u
      · subst hsame
        simp
      · rw [calls_set_ne node _ hsame]
  | @ships u decision =>
      rcases decide_serves (node.move u .awaitingDone) u decision with
        ⟨_, _, hqueue, hcalls⟩
      refine hunseen.of_fewer ?_ ?_
      · rw [hqueue, decide_early]
        rintro t (hin | hearly)
        · exact Or.inl hin
        · cases hearly
      · intro t _
        rw [hcalls]
        exact saw_move node u t _
  | @insertsRecord u cursor row =>
      rcases recordInserted_serves D node u cursor row with
        ⟨_, _, hqueue, hcalls⟩
      refine hunseen.of_fewer ?_ ?_
      · rw [hqueue, recordInserted_early]
        rintro t (hin | hearly)
        · exact Or.inl hin
        · cases hearly
      · intro t _
        rw [hcalls]
  | insertsHead | commits | lists | listFails | notes | headUnreadable
  | recordsUnreadable | loadFails | unhanded | undecided | writeFails
  | unanswered =>
      refine hunseen.of_fewer ?_ (fun _ _ => rfl)
      rintro t (hin | hearly)
      · exact Or.inl hin
      · cases hearly
  | answers =>
      refine hunseen.of_fewer ?_ (fun t _ => saw_move node _ t _)
      rintro t (hin | hearly)
      · exact Or.inl hin
      · cases hearly
  | stops =>
      refine hunseen.of_fewer ?_ (fun _ _ => rfl)
      rintro t (hin | hearly)
      · cases hin
      · cases hearly
  | loses | abandons | completes => exact hunseen

end Node

end Decern.Postgres
