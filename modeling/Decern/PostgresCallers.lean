import Decern.PostgresRuns
import Mathlib.Tactic

/-!
# Callers that go away

A caller may go away at any point.  Until its decision is handed over nothing
is written for it, and once it is gone nothing will be; from then on the
decision is the actor's to carry out.  Either way the actor goes on to serve
the next job.
-/

namespace Decern.Postgres

variable {T : Type}

/-! ## What is under way for a call -/

/-- The call the actor writes for. -/
def Actor.writes : Actor T → Option T
  | .insertingRecord t _ _ | .insertingHead t _ | .committing t => some t
  | _ => none

/-- The caller's decision is not handed over. -/
def Phase.undelivered : Phase → Bool
  | .uncalled | .awaitingLoaded | .running | .sendingDecision
  | .awaitingList => true
  | _ => false

theorem undelivered_of_over {phase : Phase} (hover : phase.over = true) :
    phase.undelivered = false := by
  cases phase <;> simp_all [Phase.over, Phase.undelivered]

theorem over_of_pending {phase : Phase} (hpending : phase.pending = true) :
    phase.over = false := by
  cases phase <;> simp_all [Phase.over, Phase.pending]

theorem Answers.waits {answer : Answer} {phase last : Phase}
    (hanswers : Answers answer phase last) : phase.over = false := by
  cases hanswers <;> rfl

namespace Node

/-- No commit of a call is under way. -/
structure Spares (node : Node T) (t : T) : Prop where
  actor : node.actor.writes ≠ some t
  session : ∀ tx, node.session = some tx → tx.committing = true → tx.call ≠ t

variable {D : Deployment T} {node next : Node T} {tables : Tables} {t u : T}

theorem Spares.congr (hspares : node.Spares t)
    (hactor : next.actor.writes = node.actor.writes ∨
      next.actor.writes = none)
    (hsession : next.session = node.session) : next.Spares t where
  actor := by
    rcases hactor with hsame | hnone
    · rw [hsame]
      exact hspares.actor
    · simp [hnone]
  session := by
    rw [hsession]
    exact hspares.session

theorem Spares.ends (hspares : node.Spares t) (answer : Answer) :
    (node.ends u answer).Spares t where
  actor := by simp [Node.ends, Actor.writes]
  session := by
    intro tx htx
    simp only [Node.ends] at htx
    split at htx
    · cases htx
    · exact hspares.session tx htx

/-- A transaction is told to commit for its own call alone. -/
theorem Spares.commits (hspares : node.Spares t) (hne : u ≠ t)
    (hown : node.connected = true →
      ∃ tx, node.session = some tx ∧ tx.call = u) :
    (node.commits u).Spares t where
  actor := fun h => hne (Option.some.inj h)
  session := by
    intro tx htx hcommitting
    simp only [Node.commits] at htx
    split at htx
    case isTrue hup =>
      rcases hown hup with ⟨before, hbefore, hcall⟩
      rw [hbefore] at htx
      cases htx
      rw [show ({ before with committing := true } : Tx T).call = u from
        hcall]
      exact hne
    case isFalse => exact hspares.session tx htx hcommitting

/-- A decision carried out for another call. -/
theorem Spares.decide (hspares : node.Spares t) (hne : u ≠ t)
    (hown : node.connected = true →
      ∃ tx, node.session = some tx ∧ tx.call = u) (decision : ShardWrite) :
    (node.decide u decision).Spares t := by
  rcases decision with e | write
  · exact hspares.ends _
  · rcases write with _ | ⟨cursor, record⟩
    · exact hspares.commits hne hown
    · simp only [Node.decide]
      split
      · exact hspares.ends _
      · exact ⟨fun h => hne (Option.some.inj h), hspares.session⟩

theorem Spares.recordInserted (hspares : node.Spares t) (hne : u ≠ t)
    (cursor : HeadCursor) (row : RecordRow) :
    (node.recordInserted D u cursor row).Spares t := by
  have hwritten : ∀ tx, (node.session.map fun (tx : Tx T) =>
      { tx with record := some row }) = some tx → tx.committing = true →
        tx.call ≠ t := by
    intro tx htx hcommitting
    rcases Option.map_eq_some_iff.mp htx with ⟨before, hbefore, rfl⟩
    exact hspares.session before hbefore hcommitting
  simp only [Node.recordInserted]
  split
  · have hbefore : Node.Spares { node with
        session := node.session.map fun (tx : Tx T) =>
          { tx with record := some row } } t := ⟨hspares.actor, hwritten⟩
    exact hbefore.ends _
  · exact ⟨fun h => hne (Option.some.inj h), hwritten⟩

variable [DecidableEq T] {free : ℤ → Prop} {move : Move T}
  {out : Option (Tx T)}

/-- Only a decision handed over sets a commit under way. -/
theorem Spares.step (hspares : node.Spares t) (hsound : node.Sound D tables)
    (hacts : Acts D tables free node move next out)
    (hkept : (node.calls t).phase ≠ .sendingDecision ∨
      (next.calls t).phase ≠ .awaitingDone) : next.Spares t := by
  have hinStep := hsound.inStep
  unfold InStep at hinStep
  cases hacts with
  | queued | full | unserved | decides | unsent | orphaned | leaves | loses =>
      exact hspares.congr (Or.inl rfl) rfl
  | @receives u =>
      refine hspares.congr (Or.inr ?_) rfl
      rcases D.received_cases u with hreceived | hreceived
      · exact congrArg Actor.writes hreceived
      · exact congrArg Actor.writes hreceived
  | begins =>
      refine ⟨by simp [Actor.writes], ?_⟩
      rintro tx ⟨⟩ hcommitting
      cases hcommitting
  | locks =>
      refine ⟨by simp [Actor.writes], ?_⟩
      intro tx htx hcommitting
      rcases Option.map_eq_some_iff.mp htx with ⟨before, hbefore, rfl⟩
      exact hspares.session before hbefore hcommitting
  | readsHead =>
      refine hspares.congr (Or.inr ?_) rfl
      simp only [Node.headRead]
      split <;> rfl
  | readsRecords | hands | lists | listFails | notes | answers | unanswered
  | stops => exact hspares.congr (Or.inr rfl) rfl
  | headUnreadable | recordsUnreadable | loadFails | unhanded | undecided
  | commits | writeFails => exact hspares.ends _
  | abandons | completes =>
      exact ⟨hspares.actor, by simp⟩
  | @ships u decision hactor hcall =>
      have hne : u ≠ t := by
        rintro rfl
        rw [(decide_serves _ _ _).2.2.2] at hkept
        simp [hcall] at hkept
      have hmoved : (node.move u .awaitingDone).Spares t :=
        hspares.congr (Or.inl rfl) rfl
      refine hmoved.decide hne ?_ decision
      intro hup
      have hstate := hinStep hup
      rw [hactor] at hstate
      exact ⟨_, hstate.1, rfl⟩
  | @insertsRecord u cursor row hactor =>
      have hne : u ≠ t := by
        rintro rfl
        exact hspares.actor (by rw [hactor]; rfl)
      exact hspares.recordInserted hne cursor row
  | @insertsHead u row hactor hconnected =>
      have hne : u ≠ t := by
        rintro rfl
        exact hspares.actor (by rw [hactor]; rfl)
      have hstate := hinStep hconnected
      rw [hactor] at hstate
      rcases hstate with ⟨_, hsession, _⟩
      have hwritten : Node.Spares { node with
          session := node.session.map fun (tx : Tx T) =>
            { tx with head := some row } } t := by
        refine ⟨hspares.actor, ?_⟩
        intro tx htx hcommitting
        rcases Option.map_eq_some_iff.mp htx with ⟨before, hbefore, rfl⟩
        exact hspares.session before hbefore hcommitting
      exact hwritten.commits hne fun _ => ⟨_, by rw [hsession]; rfl, rfl⟩

/-! ## Where a caller moves -/

/-- A call that is over stays as it is, and a decision is not handed over
twice. -/
theorem phase_step (hacts : Acts D tables free node move next out) (t : T) :
    (next.calls t).phase = (node.calls t).phase ∨
      (node.calls t).phase.over = false ∧
        ((next.calls t).phase.undelivered = true →
          (node.calls t).phase.undelivered = true) := by
  have hset : ∀ {u : T} {call : Call},
      (node.calls u).phase.over = false →
      (call.phase.undelivered = true →
        (node.calls u).phase.undelivered = true) →
      ((node.set u call).calls t).phase = (node.calls t).phase ∨
        (node.calls t).phase.over = false ∧
          (((node.set u call).calls t).phase.undelivered = true →
            (node.calls t).phase.undelivered = true) := by
    intro u call hover hlate
    by_cases hsame : t = u
    · subst hsame
      right
      simpa using ⟨hover, hlate⟩
    · left
      rw [Node.calls_set_ne node _ hsame]
  have hended : ∀ {u : T} {phase : Phase},
      (node.calls u).phase.over = false → phase.over = true →
      ((node.move u phase).calls t).phase = (node.calls t).phase ∨
        (node.calls t).phase.over = false ∧
          (((node.move u phase).calls t).phase.undelivered = true →
            (node.calls t).phase.undelivered = true) := by
    intro u phase hover hlast
    refine hset hover fun hlate => ?_
    rw [show phase.undelivered = false from undelivered_of_over hlast] at hlate
    cases hlate
  cases hacts with
  | queued hcall | unsent hcall | decides hcall =>
      exact hset (by rw [hcall]; rfl) (fun _ => by rw [hcall]; rfl)
  | hands hactor hcall =>
      exact hset (by rw [hcall]; rfl) (fun _ => by rw [hcall]; rfl)
  | full hcall | unserved hcall =>
      exact hended (by rw [hcall]; rfl) (D.over_failed _ _)
  | orphaned hpending =>
      refine hended ?_ (D.over_failed _ _)
      rcases hpending with hcall | hcall | hcall <;> rw [hcall] <;> rfl
  | leaves hcall => exact hended (over_of_pending hcall) rfl
  | answers hactor hcall => exact hended hcall.waits hcall.over
  | @ships u decision hactor hcall =>
      rw [(decide_serves (node.move u .awaitingDone) u decision).2.2.2]
      exact hset (by rw [hcall]; rfl) (fun _ => by rw [hcall]; rfl)
  | @insertsRecord u cursor row =>
      rw [(recordInserted_serves D node u cursor row).2.2.2]
      exact Or.inl rfl
  | _ => exact Or.inl rfl

end Node

/-! ## Over a run -/

variable {H : Type} [DecidableEq H] [DecidableEq T]
  {hosts : H → Deployment T} {start : Tables} {world next : World H T}
  {host : H} {t : T}

/-- Nothing of a call is committed, nor is a commit of it under way. -/
structure Unspent (world : World H T) (host : H) (t : T) : Prop where
  spares : (world.parts host).Spares t
  log : ∀ tx, (host, tx) ∈ world.shared.log → tx.call ≠ t

theorem Unspent.step (hunspent : Unspent world host t)
    (hreaches : Reaches hosts (World.initial start) world)
    (hstep : RelyGuarantee.Step (HostActs hosts) world next)
    (hkept : ((world.parts host).calls t).phase ≠ .sendingDecision ∨
      ((next.parts host).calls t).phase ≠ .awaitingDone) :
    Unspent next host t := by
  cases hstep with
  | @part other shared node hacts =>
      rcases hacts with ⟨move, out, hacts, rfl⟩
      have hsound := (good_of_reaches hreaches other).sound
      by_cases hsame : host = other
      · subst hsame
        simp only [Function.update_self] at hkept
        constructor
        · simp only [Function.update_self]
          exact hunspent.spares.step hsound hacts hkept
        · intro tx htx
          rcases mem_log_after.mp htx with hlogged | ⟨last, rfl, hlast⟩
          · exact hunspent.log tx hlogged
          · cases hlast
            rcases Node.session_of_out hsound hacts with
              ⟨hsession, hcommitting⟩
            exact hunspent.spares.session tx hsession hcommitting
      · constructor
        · simp only [Function.update_of_ne hsame]
          exact hunspent.spares
        · intro tx htx
          rcases mem_log_after.mp htx with hlogged | ⟨last, _, hlast⟩
          · exact hunspent.log tx hlogged
          · exact absurd (Prod.mk.inj hlast).1 hsame

theorem phase_of_step
    (hstep : RelyGuarantee.Step (HostActs hosts) world next) (host : H)
    (t : T) :
    ((next.parts host).calls t).phase = ((world.parts host).calls t).phase ∨
      ((world.parts host).calls t).phase.over = false ∧
        (((next.parts host).calls t).phase.undelivered = true →
          ((world.parts host).calls t).phase.undelivered = true) := by
  cases hstep with
  | part other hacts =>
      rcases hacts with ⟨move, out, hacts, _⟩
      by_cases hsame : host = other
      · subst hsame
        simp only [Function.update_self]
        exact Node.phase_step hacts t
      · simp only [Function.update_of_ne hsame]
        exact Or.inl trivial

/-- Nothing is written for a call whose decision is not handed over. -/
theorem unspent_of_undelivered
    (hreaches : Reaches hosts (World.initial start) world)
    (hphase : ((world.parts host).calls t).phase.undelivered = true) :
    Unspent world host t := by
  induction hreaches with
  | refl =>
      exact ⟨⟨by simp [World.initial, Actor.writes], by simp [World.initial]⟩,
        by simp [World.initial]⟩
  | @tail before last hbefore hstep ih =>
      have hearlier :
          ((before.parts host).calls t).phase.undelivered = true := by
        rcases phase_of_step hstep host t with hsame | ⟨_, hlate⟩
        · rwa [← hsame]
        · exact hlate hphase
      refine (ih hearlier).step hbefore hstep (Or.inr fun hdone => ?_)
      rw [hdone] at hphase
      cases hphase

/-- Nor is anything later, once its caller is gone. -/
theorem unspent_of_over
    (hreaches : Reaches hosts (World.initial start) world)
    (hunspent : Unspent world host t)
    (hover : ((world.parts host).calls t).phase.over = true)
    {last : World H T} (hlater : Reaches hosts world last) :
    Unspent last host t := by
  have hkept : Unspent last host t ∧
      ((last.parts host).calls t).phase.over = true := by
    induction hlater with
    | refl => exact ⟨hunspent, hover⟩
    | tail hbefore hstep ih =>
        rcases ih with ⟨hunspent, hover⟩
        constructor
        · refine hunspent.step (hreaches.trans hbefore) hstep
            (Or.inl fun hsending => ?_)
          rw [hsending] at hover
          cases hover
        · rcases phase_of_step hstep host t with hsame | ⟨hnot, _⟩
          · rwa [hsame]
          · rw [hover] at hnot
            cases hnot
  exact hkept.1

/-! ## One job after the other -/

variable (hosts) in
/-- A step of one process's own, from what its part may do. -/
theorem ownStep_of_acts {move : Move T} {node : Node T}
    (hown : move.own = true)
    (hacts : Acts (hosts host) world.shared.tables
      (fun key => world.shared.locks key = none) (world.parts host) move node
      none) :
    OwnStep hosts host world
      ⟨world.shared.after hosts host node none,
        Function.update world.parts host node⟩ :=
  ⟨move, node, hown, hacts, rfl⟩

/-- A job served leaves less to do by a step of its own process. -/
theorem exists_serving_step {u : T} {queue : List T}
    (hreaches : Reaches hosts (World.initial start) world)
    (hserves : (world.parts host).actor.serves = some u)
    (hqueue : (world.parts host).queue = queue) :
    ∃ next, OwnStep hosts host world next ∧
      ((next.parts host).actor.serves = some u ∨
        (next.parts host).actor = .receiving) ∧
      (next.parts host).queue = queue ∧
      (next.parts host).stepsLeft < (world.parts host).stepsLeft := by
  have hmatched := (good_of_reaches hreaches host).matched
  rcases Node.exists_actor_step hmatched world.shared.tables
    (fun key => world.shared.locks key = none) hserves with
    ⟨node, hacts⟩ | ⟨hactor, hrunning⟩
  · rcases Node.serving_of_actor hserves hacts with
      ⟨hsame, _, hless, hnext⟩
    refine ⟨_, ownStep_of_acts hosts rfl hacts, ?_, ?_, ?_⟩
    · simpa using hnext.imp_right And.left
    · simpa [hsame] using hqueue
    · simpa using hless
  · have hacts : Acts (hosts host) world.shared.tables
        (fun key => world.shared.locks key = none) (world.parts host)
        (.caller u) _ none := .decides hrunning (.ok none)
    refine ⟨_, ownStep_of_acts hosts rfl hacts, ?_, ?_, ?_⟩
    · simp [Node.set, hactor, Actor.serves]
    · simpa [Node.set] using hqueue
    · simp [Node.stepsLeft, Node.set, hactor, hrunning, Phase.decisionSteps]

/-- By its own process's steps an actor that has not stopped is done with the
job it serves and takes the next. -/
theorem serves_next {rest : List T}
    (hreaches : Reaches hosts (World.initial start) world)
    (hactor : (world.parts host).actor ≠ .stopped)
    (hqueue : (world.parts host).queue = t :: rest) :
    ∃ last, Relation.ReflTransGen (OwnStep hosts host) world last ∧
      (last.parts host).actor.serves = some t ∧
      (last.parts host).queue = rest := by
  let waits : World H T → Prop := fun world =>
    Reaches hosts (World.initial start) world ∧
      (world.parts host).actor ≠ .stopped ∧
      (world.parts host).queue = t :: rest
  have hdone : ∃ last, Relation.ReflTransGen (OwnStep hosts host) world
      last ∧ waits last ∧ (last.parts host).actor = .receiving := by
    refine RankedProgress.reaches_done waits
      (fun world => (world.parts host).stepsLeft) ?_ world
      ⟨hreaches, hactor, hqueue⟩
    rintro world ⟨hreaches, hactor, hqueue⟩ hbusy
    cases hserves : (world.parts host).actor.serves with
    | none => exact absurd ⟨⟨hreaches, hactor, hqueue⟩,
        Node.receiving_of_idle hserves hactor⟩ hbusy
    | some u =>
        rcases exists_serving_step hreaches hserves hqueue with
          ⟨next, hstep, hnext, hsame, hless⟩
        refine ⟨next, hstep, ⟨hstep.reaches hreaches, ?_, hsame⟩, hless⟩
        intro hstopped
        rcases hnext with hnext | hnext
        · rw [hstopped] at hnext
          cases hnext
        · rw [hstopped] at hnext
          cases hnext
  rcases hdone with ⟨last, hsteps, ⟨_, _, hwaiting⟩, hreceiving⟩
  refine ⟨_, hsteps.tail (ownStep_of_acts hosts rfl
    (.receives hreceiving hwaiting)), ?_, ?_⟩
  · simp
  · simp

/-! ## What a section comes to -/

/-- In every state the processes reach, an actor and the caller it serves wait
on one channel, and a callback has run at most once.  What is committed for a
call is what its callback returned, record and head both or neither; an error,
a shard that did not load and a caller that left with its decision still its
own commit nothing, then or later; a call answered well has committed.  And an
actor that has not stopped takes the next job. -/
theorem sections_decided
    (hreaches : Reaches hosts (World.initial start) world) (host : H)
    (t : T) :
    (∀ mine theirs, (world.parts host).actor.waits = some (t, mine) →
        ((world.parts host).calls t).phase.waits = some theirs →
          mine = theirs) ∧
      ((world.parts host).calls t).saw.length ≤ 1 ∧
      (world.shared.tables = replay hosts start world.shared.log ∧
        ∀ tx, (host, tx) ∈ world.shared.log → tx.call = t →
          ∃ write, ((world.parts host).calls t).decided =
              some (.ok write) ∧
            (hosts host).Writes write tx ∧
            tx.record.isSome = write.isSome ∧
            tx.head.isSome = write.isSome) ∧
      ((((world.parts host).calls t).saw = [] ∨
          ∃ e, ((world.parts host).calls t).decided = some (.error e)) →
        ∀ tx, (host, tx) ∈ world.shared.log → tx.call ≠ t) ∧
      (((world.parts host).calls t).phase.undelivered = true →
        ∀ node, Acts (hosts host) world.shared.tables
            (fun key => world.shared.locks key = none) (world.parts host)
            (.leaves t) node none →
          ∀ last, Reaches hosts
              ⟨world.shared.after hosts host node none,
                Function.update world.parts host node⟩ last →
            ∀ tx, (host, tx) ∈ last.shared.log → tx.call ≠ t) ∧
      (((world.parts host).calls t).phase = .returned (.ok ()) →
        ∃ tx, (host, tx) ∈ world.shared.log ∧ tx.call = t) ∧
      ∀ rest, (world.parts host).actor ≠ .stopped →
        (world.parts host).queue = t :: rest →
          ∃ last, Relation.ReflTransGen (OwnStep hosts host) world last ∧
            (last.parts host).actor.serves = some t ∧
            (last.parts host).queue = rest := by
  have hgood := good_of_reaches hreaches host
  have hdecided : ∀ tx, (host, tx) ∈ world.shared.log → tx.call = t →
      (∃ seen, ((world.parts host).calls t).saw = [seen]) ∧
        ∃ write, ((world.parts host).calls t).decided = some (.ok write) ∧
          (hosts host).Writes write tx := by
    rintro tx htx rfl
    rcases List.append_of_mem htx with ⟨before, after, hlog⟩
    rcases (hgood.logged before tx after hlog).1 with
      ⟨⟨seen, hsaw, _⟩, hwritten, _⟩
    exact ⟨⟨seen, hsaw⟩, hwritten⟩
  refine ⟨fun mine theirs => hgood.matched.meets,
    (hgood.matched.coherent t).saw_le, ⟨hgood.replays, ?_⟩, ?_, ?_,
    fun hdone => hgood.succeeded t (Or.inl hdone),
    fun rest => serves_next hreaches⟩
  · intro tx htx hcall
    rcases (hdecided tx htx hcall).2 with ⟨write, hwrite, hwrites⟩
    refine ⟨write, hwrite, hwrites, ?_⟩
    cases write with
    | none =>
        rcases hwrites with ⟨hrecord, hhead⟩
        rw [hrecord, hhead]
        exact ⟨rfl, rfl⟩
    | some decision =>
        rcases hwrites with ⟨row, head, _, _, hrecord, hhead⟩
        rw [hrecord, hhead]
        exact ⟨rfl, rfl⟩
  · rintro hnot tx htx hcall
    rcases hdecided tx htx hcall with ⟨⟨seen, hsaw⟩, write, hwrite, _⟩
    rcases hnot with hnone | ⟨e, herror⟩
    · rw [hnone] at hsaw
      cases hsaw
    · rw [herror] at hwrite
      cases hwrite
  · intro hphase node hleaves last hlater
    have hstep : RelyGuarantee.Step (HostActs hosts) world
        ⟨world.shared.after hosts host node none,
          Function.update world.parts host node⟩ :=
      .part host ⟨.leaves t, none, hleaves, rfl⟩
    have hgone : (node.calls t).phase = .gone := by
      cases hleaves
      simp
    have hunspent := (unspent_of_undelivered hreaches hphase).step hreaches
      hstep (Or.inr (by simp [hgone]))
    exact (unspent_of_over (hreaches.tail hstep) hunspent
      (by simp [hgone, Phase.over]) hlater).log

/-! ## A caller that leaves -/

/-- Its decision handed over, the caller leaves, and the record is there. -/
theorem decision_outlives_caller :
    ∃ world : World Unit Unit,
      Reaches (fun _ => plainHost) (World.initial emptyTables) world ∧
        ((world.parts ()).calls ()).phase = .gone ∧
        world.shared.log = [((), firstTx)] ∧
        world.shared.tables.hasRecord "tenant" 0 = true := by
  have hinitial : AloneReaches (fun _ : Unit => plainHost) () (fun _ => {})
    emptyTables [] {} := aloneReaches_initial
  have hwaiting := hinitial.queued (fun _ hne => absurd rfl hne) Nat.one_pos
    rfl
  have hrow : Tables.recordRow ⟨1, "head", none⟩ "record" =
      .ok ⟨0, "record"⟩ := rfl
  rcases hwaiting.ships (fun _ hne => absurd rfl hne) rfl rfl hrow with
    ⟨node, hshipped, hactor, hconnected, hsession, hcall⟩
  have hleft := hshipped.quiet (fun _ hne => absurd rfl hne)
    fun free hfree => .leaves (t := ()) (by rw [hcall]; rfl)
  rcases hleft.writes (fun _ hne => absurd rfl hne) rfl hactor hconnected
    hsession rfl rfl with
    ⟨last, ⟨world, hworld, hparts, htables, hlog⟩, _, hcalls, _⟩
  refine ⟨world, hworld, ?_, hlog, ?_⟩
  · rw [hparts, Function.update_self, hcalls]
    simp
  · rw [htables]
    rfl

theorem OwnStep.step (hstep : OwnStep hosts host world next) :
    RelyGuarantee.Step (HostActs hosts) world next := by
  rcases hstep with ⟨move, node, _, hacts, rfl⟩
  exact .part host ⟨move, none, hacts, rfl⟩

/-- A caller leaves the queue it waits in; its job is served and commits
nothing. -/
theorem sections_decided_pair :
    ∃ world last : World Bool Unit,
      Reaches (fun _ => plainHost) (World.initial emptyTables) world ∧
        ((world.parts false).calls ()).phase = .gone ∧
        world.shared.log = [(true, firstTx)] ∧
        Relation.ReflTransGen (OwnStep (fun _ => plainHost) false) world
          last ∧
        (last.parts false).actor.serves = some () ∧
        ∀ tx, (false, tx) ∈ last.shared.log → tx.call ≠ () := by
  have hrow : Tables.recordRow ⟨1, "head", none⟩ "record" =
      .ok ⟨0, "record"⟩ := rfl
  have hother := pair_waiting.turn Bool.false_ne_true.symm rfl
  rcases hother.commits (by decide) rfl rfl rfl hrow rfl with
    ⟨node, hcommitted, _⟩
  rcases hcommitted.turn Bool.false_ne_true rfl with
    ⟨world, hworld, hparts, _, hlog⟩
  have hpart : world.parts false = waitingNode := by
    rw [hparts, Function.update_self, Function.update_self]
  have hleaves : Acts plainHost world.shared.tables
      (fun key => world.shared.locks key = none) (world.parts false)
      (.leaves ()) ((world.parts false).move () .gone) none :=
    .leaves (by rw [hpart]; rfl)
  have hstep : RelyGuarantee.Step (HostActs fun _ : Bool => plainHost) world
      ⟨world.shared.after (fun _ => plainHost) false
          ((world.parts false).move () .gone) none,
        Function.update world.parts false
          ((world.parts false).move () .gone)⟩ :=
    .part false ⟨.leaves (), none, hleaves, rfl⟩
  have hnext := hworld.tail hstep
  rcases (sections_decided hnext false ()).2.2.2.2.2.2 []
      (by simp [hpart, waitingNode, Node.move, Node.set])
      (by simp [hpart, waitingNode, Node.move, Node.set]) with
    ⟨last, hsteps, hserves, _⟩
  refine ⟨_, last, hnext, ?_, ?_, hsteps, hserves, ?_⟩
  · simp only [Function.update_self, Node.calls_move_self]
  · simpa [Shared.after, firstTx] using hlog
  · exact (sections_decided hworld false ()).2.2.2.2.1
      (by rw [hpart]; rfl) _ hleaves last
      (hsteps.lift id fun _ _ hstep => hstep.step)

end Decern.Postgres
