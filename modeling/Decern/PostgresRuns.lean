import Decern.PostgresHosts
import Decern.PostgresProgress
import Mathlib.Tactic

/-!
# Runs of the database head store

Over any number of processes, callers and faults, what the database holds is
what the committed sections did one after the other, and a caller waits for
its answer only as long as its own process takes its steps.
-/

namespace Decern.Postgres

variable {H T : Type} [DecidableEq H] [DecidableEq T]
  {hosts : H → Deployment T} {start : Tables} {world : World H T}

/-! ## One section after the other -/

omit [DecidableEq H] [DecidableEq T] in
theorem Good.log_nodup {shared : Shared H T} {parts : H → Node T}
    (hgood : ∀ host, Good hosts start host shared (parts host)) :
    (shared.log.map fun entry => (entry.1, entry.2.call)).Nodup := by
  rw [List.nodup_iff_pairwise_ne, List.pairwise_map, List.pairwise_iff_getElem]
  intro i j hi hj hlt heq
  have hsplit : shared.log =
      shared.log.take j ++ shared.log[j] :: shared.log.drop (j + 1) := by
    rw [List.cons_getElem_drop_succ, List.take_append_drop]
  have hearlier : shared.log[i] ∈ shared.log.take j := by
    rw [List.mem_take_iff_getElem]
    exact ⟨i, by omega, rfl⟩
  rcases Prod.mk.inj heq with ⟨hhost, hcall⟩
  have hlogged := (hgood shared.log[j].1).logged (shared.log.take j)
    shared.log[j].2 (shared.log.drop (j + 1)) hsplit
  apply hlogged.2 shared.log[i].2 _ hcall
  rw [← hhost]
  exact hearlier

/-- Over any run of any number of processes, the tables are what the committed
transactions left one after the other.  Each is of another call, whose
callback ran once, on the shard as the transactions before had left it, and
wrote the record and the head the callback returned or nothing.  A call that
succeeds committed; one that was refused, failed to load, returned an error or
went away undecided did not. -/
theorem sections_serializable
    (hreaches : Reaches hosts (World.initial start) world) :
    world.shared.tables = replay hosts start world.shared.log ∧
      (world.shared.log.map fun entry => (entry.1, entry.2.call)).Nodup ∧
      (∀ before host tx after,
        world.shared.log = before ++ (host, tx) :: after →
          (world.parts host).Decided (hosts host) (replay hosts start before)
            tx) ∧
      (∀ host t, ((world.parts host).calls t).phase = .returned (.ok ()) →
        ∃ tx, (host, tx) ∈ world.shared.log ∧ tx.call = t) ∧
      ∀ host t, (((world.parts host).calls t).saw = [] ∨
          ((world.parts host).calls t).decided = none ∨
          ∃ e, ((world.parts host).calls t).decided = some (.error e)) →
        ∀ tx, (host, tx) ∈ world.shared.log → tx.call ≠ t := by
  have hgood := good_of_reaches hreaches
  have hdecided : ∀ before host tx after,
      world.shared.log = before ++ (host, tx) :: after →
        (world.parts host).Decided (hosts host) (replay hosts start before)
          tx := fun before host tx after hlog =>
    ((hgood host).logged before tx after hlog).1
  refine ⟨replays_of_reaches hreaches, Good.log_nodup hgood, hdecided, ?_,
    ?_⟩
  · intro host t hdone
    exact (hgood host).succeeded t (Or.inl hdone)
  · rintro host t hnot tx htx rfl
    rcases List.append_of_mem htx with ⟨before, after, hlog⟩
    rcases hdecided before host tx after hlog with ⟨⟨seen, hsaw, _⟩, hwrote, _⟩
    rcases hwrote with ⟨write, hwrite, _⟩
    rcases hnot with hnone | hnone | ⟨e, herror⟩
    · rw [hnone] at hsaw
      cases hsaw
    · rw [hnone] at hwrite
      cases hwrite
    · rw [herror] at hwrite
      cases hwrite

/-! ## One section of one process -/

def emptyTables : Tables := ⟨∅, fun _ => []⟩

section Alone

variable {sites : H → Deployment Unit} {site : H} {others : H → Node Unit}

variable (sites site others) in
/-- The states one process comes to while the others rest, with what the
tables then hold and what was committed. -/
def AloneReaches (tables : Tables) (log : List (H × Tx Unit))
    (node : Node Unit) : Prop :=
  ∃ world, Reaches sites (World.initial emptyTables) world ∧
    world.parts = Function.update others site node ∧
    world.shared.tables = tables ∧ world.shared.log = log

variable {tables : Tables} {log : List (H × Tx Unit)}

omit [DecidableEq T] in
theorem aloneReaches_initial :
    AloneReaches sites site (fun _ => {}) emptyTables [] {} :=
  ⟨_, .refl, (Function.update_eq_self site _).symm, rfl, rfl⟩

/-- Another process goes on. -/
theorem AloneReaches.turn {node waiting : Node Unit} {next : H}
    (hreaches : AloneReaches sites site others tables log node)
    (hne : next ≠ site) (hwaiting : others next = waiting) :
    AloneReaches sites next (Function.update others site node) tables log
      waiting := by
  rcases hreaches with ⟨world, hworld, hparts, hshared⟩
  refine ⟨world, hworld, ?_, hshared⟩
  rw [hparts, ← hwaiting]
  exact (Function.update_eq_self_iff.mpr
    (Function.update_of_ne hne _ _).symm).symm

variable (hothers : ∀ other, other ≠ site → (others other).lock = none)

include hothers

/-- A step of the one process. -/
theorem AloneReaches.step {node next : Node Unit} {move : Move Unit}
    {out : Option (Tx Unit)}
    (hreaches : AloneReaches sites site others tables log node)
    (hacts : ∀ free : ℤ → Prop,
      (∀ key, node.lock ≠ some key → free key) →
        Acts (sites site) tables free node move next out) :
    AloneReaches sites site others
      (out.elim tables ((sites site).commit tables))
      (log ++ out.toList.map fun tx => (site, tx)) next := by
  rcases hreaches with ⟨world, hworld, hparts, rfl, rfl⟩
  have hself : world.parts site = node := by
    rw [hparts, Function.update_self]
  have hfree : ∀ key, node.lock ≠ some key →
      world.shared.locks key = none := by
    intro key hkey
    rw [Option.eq_none_iff_forall_ne_some]
    intro holder hlock
    have hheld := ((good_of_reaches hworld holder).locks key).mp hlock
    by_cases hsame : holder = site
    · rw [hsame, hself] at hheld
      exact hkey hheld
    · rw [hparts, Function.update_of_ne hsame, hothers holder hsame] at hheld
      cases hheld
  have hstep := hacts (fun key => world.shared.locks key = none) hfree
  rw [← hself] at hstep
  refine ⟨⟨world.shared.after sites site next out,
    Function.update world.parts site next⟩,
    hworld.tail (.part site ⟨move, out, hstep, rfl⟩), ?_, rfl, rfl⟩
  rw [hparts, Function.update_idem]

theorem AloneReaches.quiet {node next : Node Unit} {move : Move Unit}
    (hreaches : AloneReaches sites site others tables log node)
    (hacts : ∀ free : ℤ → Prop,
      (∀ key, node.lock ≠ some key → free key) →
        Acts (sites site) tables free node move next none) :
    AloneReaches sites site others tables log next := by
  simpa using hreaches.step hothers hacts

omit hothers in
/-- The transaction of a section that writes. -/
def writtenTx (D : Deployment Unit) (row : RecordRow) (head : HeadRow) :
    Tx Unit :=
  { D.locked () with
    record := some row
    head := some head
    committing := true }

/-- A process that waits for its one call's state. -/
def waitingNode : Node Unit :=
  { Node.move {} () .awaitingLoaded with queue := [()] }

variable {name : String} (hdepth : 0 < (sites site).depth)
  (hjob : (sites site).job () = .withShard name false)

include hdepth hjob

theorem AloneReaches.queued
    (hreaches : AloneReaches sites site others tables log {}) :
    AloneReaches sites site others tables log waitingNode := by
  have hawaiting : (sites site).awaiting () = .awaitingLoaded := by
    simp [Deployment.awaiting, hjob]
  have hqueued := hreaches.quiet hothers fun free hfree =>
    .queued (t := ()) rfl (by simp) hdepth
  rwa [hawaiting] at hqueued

omit hothers in
/-- A process that has locked its call's shard. -/
def lockedNode (D : Deployment Unit) : Node Unit :=
  { Node.move {} () .awaitingLoaded with
    actor := .readingHead ()
    session := some (D.locked ()) }

omit hdepth in
theorem AloneReaches.locks
    (hreaches : AloneReaches sites site others tables log waitingNode) :
    AloneReaches sites site others tables log (lockedNode (sites site)) := by
  have hreceived : (sites site).received () = .beginning () := by
    simp [Deployment.received, hjob]
  have hbeginning := hreaches.quiet hothers fun free hfree =>
    .receives rfl rfl
  rw [hreceived] at hbeginning
  have hlocking := hbeginning.quiet hothers fun free hfree => .begins rfl rfl
  exact hlocking.quiet hothers fun free hfree =>
    .locks rfl rfl (hfree _ (by simp [Node.lock]))

omit hdepth in
/-- A section that reads the head alone, to its decision. -/
theorem AloneReaches.ships {found : Option HeadCursor}
    {cursor : HeadCursor} {record : String} {row : RecordRow}
    (hreaches : AloneReaches sites site others tables log waitingNode)
    (hread : tables.readHead (sites site).text name = .ok found)
    (hrow : Tables.recordRow cursor record = .ok row) :
    ∃ node, AloneReaches sites site others tables log node ∧
      node.actor = .insertingRecord () cursor row ∧ node.connected = true ∧
      node.session = some ((sites site).locked ()) ∧
      node.calls () = {
        phase := .awaitingDone, saw := [(found, [])]
        decided := some (.ok (some (cursor, record))) } := by
  have hhistory : (sites site).history () = false := by
    simp [Deployment.history, hjob]
  have hshard : (sites site).shard () = name := by
    simp [Deployment.shard, hjob]
  have hhanding := (hreaches.locks hothers hjob).quiet hothers fun free hfree =>
    .readsHead rfl rfl (hshard ▸ hread)
  simp only [Node.headRead, hhistory, Bool.false_eq_true, if_false] at hhanding
  have hrunning := hhanding.quiet hothers fun free hfree => .hands rfl rfl
  have hdecided := hrunning.quiet hothers fun free hfree =>
    .decides (t := ()) rfl (.ok (some (cursor, record)))
  have hshipped := hdecided.quiet hothers fun free hfree =>
    .ships rfl rfl rfl
  simp only [Node.decide, hrow] at hshipped
  exact ⟨_, hshipped, rfl, rfl, rfl, rfl⟩

omit hdepth in
/-- The decision is written and committed, whoever waits for it. -/
theorem AloneReaches.writes {node : Node Unit} {cursor : HeadCursor}
    {row : RecordRow} {head : HeadRow}
    (hreaches : AloneReaches sites site others tables log node)
    (hactor : node.actor = .insertingRecord () cursor row)
    (hconnected : node.connected = true)
    (hsession : node.session = some ((sites site).locked ()))
    (hkey : tables.hasRecord name row.seq = false)
    (hhead : Tables.headRow (sites site).text cursor = .ok head) :
    ∃ last, AloneReaches sites site others
        ((sites site).commit tables (writtenTx (sites site) row head))
        (log ++ [(site, writtenTx (sites site) row head)]) last ∧
      last.actor = .ended () (.ran (.ok ())) ∧ last.calls = node.calls ∧
      last.lock = none := by
  have hshard : (sites site).shard () = name := by
    simp [Deployment.shard, hjob]
  have hinserted := hreaches.quiet hothers fun free hfree =>
    .insertsRecord hactor hconnected (hshard ▸ hkey)
  simp only [Node.recordInserted, hhead, hsession, Option.map_some]
    at hinserted
  have hheaded := hinserted.quiet hothers fun free hfree =>
    .insertsHead rfl hconnected
  simp only [Node.headInserted, Node.commits, hconnected, if_true,
    Option.map_some] at hheaded
  have hcommitted := hheaded.step hothers fun free hfree =>
    .commits rfl rfl rfl
  refine ⟨_, hcommitted, rfl, rfl, ?_⟩
  simp [Node.lock, Node.ends]

omit hdepth in
/-- A section that reads the head alone commits what its callback returns,
and its caller is answered. -/
theorem AloneReaches.commits {found : Option HeadCursor}
    {cursor : HeadCursor} {record : String} {row : RecordRow}
    {head : HeadRow}
    (hreaches : AloneReaches sites site others tables log waitingNode)
    (hread : tables.readHead (sites site).text name = .ok found)
    (hkey : tables.hasRecord name row.seq = false)
    (hrow : Tables.recordRow cursor record = .ok row)
    (hhead : Tables.headRow (sites site).text cursor = .ok head) :
    ∃ node, AloneReaches sites site others
        ((sites site).commit tables (writtenTx (sites site) row head))
        (log ++ [(site, writtenTx (sites site) row head)]) node ∧
      (node.calls ()).saw = [(found, [])] ∧
      (node.calls ()).decided = some (.ok (some (cursor, record))) ∧
      (node.calls ()).phase = .returned (.ok ()) ∧ node.lock = none := by
  rcases hreaches.ships hothers hjob hread hrow with
    ⟨node, hshipped, hactor, hconnected, hsession, hcall⟩
  rcases hshipped.writes hothers hjob hactor hconnected hsession hkey hhead
    with ⟨last, hwritten, hended, hcalls, hlock⟩
  have hnoted := hwritten.quiet hothers fun free hfree => .notes hended
  have hanswered := hnoted.quiet hothers fun free hfree =>
    .answers (t := ()) rfl (by rw [hcalls, hcall]; exact .ran _)
  refine ⟨_, hanswered, ?_, ?_, ?_, hlock⟩
  · simp [hcalls, hcall]
  · simp [hcalls, hcall]
  · simp

end Alone

/-! ## Two processes -/

def plainText : SignersText where
  write := fun _ => .error "not written"
  read := fun _ => .error "not read"

def plainHost : Deployment Unit :=
  { depth := 1, text := plainText, job := fun _ => .withShard "tenant" false }

/-- What the two processes write, the second on the first's head. -/
def firstTx : Tx Unit := writtenTx plainHost ⟨0, "record"⟩ ⟨1, "head", none⟩
def secondTx : Tx Unit := writtenTx plainHost ⟨1, "other"⟩ ⟨2, "next", none⟩

/-- Both processes have called and wait. -/
theorem pair_waiting : AloneReaches (fun _ : Bool => plainHost) false
    (fun _ => waitingNode) emptyTables [] waitingNode := by
  have hinitial : AloneReaches (fun _ : Bool => plainHost) true (fun _ => {})
    emptyTables [] {} := aloneReaches_initial
  have hfirst := hinitial.queued (fun _ _ => rfl) Nat.one_pos rfl
  have hother := hfirst.turn Bool.false_ne_true rfl
  have hsecond := hother.queued (by decide) Nat.one_pos rfl
  rcases hsecond with ⟨world, hworld, hparts, hshared⟩
  refine ⟨world, hworld, ?_, hshared⟩
  rw [hparts]
  funext part
  cases part <;> rfl

theorem sections_serializable_pair :
    ∃ world : World Bool Unit,
      Reaches (fun _ => plainHost) (World.initial emptyTables) world ∧
        world.shared.log = [(false, firstTx), (true, secondTx)] ∧
        world.shared.tables = plainHost.commit
          (plainHost.commit emptyTables firstTx) secondTx ∧
        (world.parts true).Decided plainHost
          (plainHost.commit emptyTables firstTx) secondTx := by
  have hrow : Tables.recordRow ⟨1, "head", none⟩ "record" =
      .ok ⟨0, "record"⟩ := rfl
  have hnextRow : Tables.recordRow ⟨2, "next", none⟩ "other" =
      .ok ⟨1, "other"⟩ := rfl
  have hread : (plainHost.commit emptyTables firstTx).readHead plainText
      "tenant" = .ok (some ⟨1, "head", none⟩) := by
    simp [Tables.readHead, Deployment.commit, firstTx, writtenTx,
      Tables.upsertHead]
    rfl
  rcases pair_waiting.commits (by decide) rfl rfl rfl hrow rfl with
    ⟨node, hfirst, _, _, _, hlock⟩
  have hsecond := hfirst.turn Bool.false_ne_true.symm rfl
  rcases hsecond.commits (by simp [hlock]) rfl hread rfl hnextRow rfl with
    ⟨other, ⟨world, hworld, _, _, hlog⟩, _⟩
  rcases sections_serializable hworld with ⟨htables, _, hdecided, _⟩
  refine ⟨world, hworld, hlog, ?_, ?_⟩
  · rw [htables, hlog]
    rfl
  · exact hdecided [(false, firstTx)] true secondTx [] hlog

/-! ## Every call is answered -/

variable (hosts) in
/-- A step a process's store and its callers take by themselves. -/
def OwnStep (host : H) (world next : World H T) : Prop :=
  ∃ move node, move.own = true ∧
    Acts (hosts host) world.shared.tables
      (fun key => world.shared.locks key = none) (world.parts host) move node
      none ∧
    next = ⟨world.shared.after hosts host node none,
      Function.update world.parts host node⟩

theorem OwnStep.reaches {host : H} {next : World H T}
    (hreaches : Reaches hosts (World.initial start) world)
    (hstep : OwnStep hosts host world next) :
    Reaches hosts (World.initial start) next := by
  rcases hstep with ⟨move, node, _, hacts, rfl⟩
  exact hreaches.tail (.part host ⟨move, none, hacts, rfl⟩)

/-- A call made that is not pending is answered, unless its caller left. -/
theorem Phase.answered_of_not_pending {phase : Phase}
    (hpresent : phase.present = true) (hpending : phase.pending ≠ true) :
    phase.answered = true := by
  cases phase <;> simp_all [Phase.pending, Phase.present, Phase.answered]

theorem Phase.present_of_pending {phase : Phase}
    (hpending : phase.pending = true) : phase.present = true := by
  cases phase <;> simp_all [Phase.pending, Phase.present]

/-- By its own process's steps a call made is answered. -/
theorem answered_of_reaches
    (hreaches : Reaches hosts (World.initial start) world) (host : H) (t : T)
    (hpresent : ((world.parts host).calls t).phase.present = true) :
    ∃ last, Relation.ReflTransGen (OwnStep hosts host) world last ∧
      ((last.parts host).calls t).phase.answered = true := by
  refine RankedProgress.reaches_done
    (fun world => Reaches hosts (World.initial start) world ∧
      ((world.parts host).calls t).phase.present = true)
    (fun world => (world.parts host).rank t) ?_ world ⟨hreaches, hpresent⟩
  rintro world ⟨hreaches, hpresent⟩ hanswered
  have hpending : ((world.parts host).calls t).phase.pending = true := by
    by_contra hnot
    exact hanswered (Phase.answered_of_not_pending hpresent hnot)
  rcases Node.exists_step (good_of_reaches hreaches host).matched
    world.shared.tables (fun key => world.shared.locks key = none) hpending with
    ⟨move, node, hown, hacts, hless⟩
  have hstep : OwnStep hosts host world
      ⟨world.shared.after hosts host node none,
        Function.update world.parts host node⟩ :=
    ⟨move, node, hown, hacts, rfl⟩
  refine ⟨_, hstep, ⟨hstep.reaches hreaches, ?_⟩, ?_⟩
  · simpa using Node.present_step hacts hown hpresent
  · simpa using hless

/-- In every run, an actor and a caller that wait for one another wait on one
channel, and a callback runs once.  A call that is not over keeps its place:
no step of any process puts it further from its answer, every step of its
actor brings it nearer, and its process can bring it there alone. -/
theorem sections_answered
    (hreaches : Reaches hosts (World.initial start) world) (host : H)
    (t : T) :
    (∀ mine theirs, (world.parts host).actor.waits = some (t, mine) →
        ((world.parts host).calls t).phase.waits = some theirs →
          mine = theirs) ∧
      ((world.parts host).calls t).saw.length ≤ 1 ∧
      (((world.parts host).calls t).phase.pending = true →
        (∀ next, RelyGuarantee.Step (HostActs hosts) world next →
          (next.parts host).rank t ≤ (world.parts host).rank t) ∧
        (∀ node out, Acts (hosts host) world.shared.tables
            (fun key => world.shared.locks key = none) (world.parts host)
            .actor node out →
          node.rank t < (world.parts host).rank t) ∧
        ∃ last, Relation.ReflTransGen (OwnStep hosts host) world last ∧
          ((last.parts host).calls t).phase.answered = true) := by
  have hmatched := (good_of_reaches hreaches host).matched
  refine ⟨?_, (hmatched.coherent t).saw_le, ?_⟩
  · intro mine theirs hactor hcall
    exact hmatched.meets hactor hcall
  · intro hpending
    refine ⟨?_, ?_, answered_of_reaches hreaches host t
      (Phase.present_of_pending hpending)⟩
    · intro next hstep
      cases hstep with
      | part other hacts =>
          by_cases hsame : host = other
          · subst hsame
            rcases hacts with ⟨move, out, hacts, _⟩
            simpa using Node.rank_le_of_step hmatched hacts hpending
          · simp [Function.update_of_ne hsame]
    · intro node out hacts
      exact Node.rank_lt_of_actor hmatched hacts hpending

theorem sections_answered_pair :
    ∃ world last : World Bool Unit,
      Reaches (fun _ => plainHost) (World.initial emptyTables) world ∧
        (world.parts true).lock = some (advisoryKey "tenant") ∧
        ((world.parts false).calls ()).phase = .awaitingLoaded ∧
        Relation.ReflTransGen (OwnStep (fun _ => plainHost) false) world
          last ∧
        ((last.parts false).calls ()).phase.answered = true := by
  have hother := pair_waiting.turn Bool.false_ne_true.symm rfl
  rcases hother.locks (by decide) rfl with ⟨world, hworld, hparts, _⟩
  have hlock : (world.parts true).lock = some (advisoryKey "tenant") := by
    rw [hparts]
    rfl
  have hphase : ((world.parts false).calls ()).phase = .awaitingLoaded := by
    rw [hparts]
    rfl
  rcases (sections_answered hworld false ()).2.2 (by rw [hphase]; rfl) with
    ⟨_, _, last, hsteps, hanswered⟩
  exact ⟨world, last, hworld, hlock, hphase, hsteps, hanswered⟩

end Decern.Postgres
