import Decern.PostgresProtocol
import Mathlib.Tactic

/-!
# A section and its transaction

From the lock to the commit the database holds one transaction for the call
the actor serves, and nothing it read has changed.  A transaction the database
was told to commit writes what a callback returned, on the shard it was run
on; it stays so when the connection is lost before the outcome is known.
-/

namespace Decern.Postgres

variable {T : Type}

/-! ## What a transaction is of -/

/-- A decision and what is written for it: a record and its head, or
nothing. -/
def Deployment.Writes (D : Deployment T) :
    Option (HeadCursor × String) → Tx T → Prop
  | none, tx => tx.record = none ∧ tx.head = none
  | some (cursor, record), tx => ∃ row head,
      Tables.recordRow cursor record = .ok row ∧
        Tables.headRow D.text cursor = .ok head ∧
        tx.record = some row ∧ tx.head = some head

/-- The callback of `t` ran once, on the shard as the tables hold it. -/
def Node.Handed (D : Deployment T) (tables : Tables) (node : Node T)
    (t : T) : Prop :=
  ∃ seen, (node.calls t).saw = [seen] ∧
    tables.load D.text (D.shard t) (D.history t) = .ok seen

/-- A transaction writes what its callback returned when it was run on the
shard as the tables hold it, under a number they do not have. -/
structure Node.Decided (D : Deployment T) (tables : Tables) (node : Node T)
    (tx : Tx T) : Prop where
  handed : node.Handed D tables tx.call
  written : ∃ write, (node.calls tx.call).decided = some (.ok write) ∧
    D.Writes write tx
  numbered : ∀ row, tx.record = some row →
    tables.hasRecord (D.shard tx.call) row.seq = false

/-- The transaction of `t` once it holds the shard's lock. -/
def Deployment.locked (D : Deployment T) (t : T) : Tx T :=
  { call := t, lock := some (advisoryKey (D.shard t)) }

/-- Where the actor is, and the transaction the database holds for it. -/
def Node.InStep (D : Deployment T) (tables : Tables) (node : Node T) : Prop :=
  match node.actor with
  | .receiving | .beginning _ | .listing _ | .ended _ _ | .answering _ _ =>
      node.session = none
  | .locking t => node.session = some { call := t }
  | .readingHead t => node.session = some (D.locked t)
  | .readingRecords t cursor =>
      node.session = some (D.locked t) ∧ D.history t = true ∧
        tables.readHead D.text (D.shard t) = .ok cursor
  | .handing t seen =>
      node.session = some (D.locked t) ∧
        tables.load D.text (D.shard t) (D.history t) = .ok seen
  | .awaitingDecision t =>
      node.session = some (D.locked t) ∧ node.Handed D tables t
  | .insertingRecord t cursor row =>
      node.session = some (D.locked t) ∧ node.Handed D tables t ∧
        ∃ record, (node.calls t).decided =
            some (.ok (some (cursor, record))) ∧
          Tables.recordRow cursor record = .ok row
  | .insertingHead t head =>
      ∃ row, node.session = some { D.locked t with record := some row } ∧
        node.Handed D tables t ∧
        tables.hasRecord (D.shard t) row.seq = false ∧
        ∃ cursor record, (node.calls t).decided =
            some (.ok (some (cursor, record))) ∧
          Tables.recordRow cursor record = .ok row ∧
          Tables.headRow D.text cursor = .ok head
  | .committing t =>
      ∃ tx, node.session = some tx ∧ tx.call = t ∧ tx.committing = true
  | .stopped => False

structure Node.Sound (D : Deployment T) (tables : Tables)
    (node : Node T) : Prop where
  inStep : node.connected = true → node.InStep D tables
  committing : ∀ tx, node.session = some tx → tx.committing = true →
    tx.lock = some (advisoryKey (D.shard tx.call)) ∧
      node.Decided D tables tx

/-! ## What a call saw and decided stays -/

/-- The calls of `next` saw and decided at least what those of `node` did. -/
def Node.Keeps (node next : Node T) : Prop :=
  ∀ t, (∀ seen, (node.calls t).saw = [seen] → (next.calls t).saw = [seen]) ∧
    ∀ decision, (node.calls t).decided = some decision →
      (next.calls t).decided = some decision

theorem Deployment.received_cases (D : Deployment T) (t : T) :
    D.received t = .beginning t ∨ D.received t = .listing t := by
  unfold Deployment.received
  split
  · exact Or.inl rfl
  · exact Or.inr rfl

namespace Node

variable {D : Deployment T} {tables others : Tables} {node next : Node T}
  {t : T}

theorem Keeps.of_calls (hcalls : next.calls = node.calls) :
    node.Keeps next := by
  intro t
  rw [hcalls]
  exact ⟨fun _ => id, fun _ => id⟩

theorem Keeps.of_others {u : T} (hothers : ∀ v ≠ u, next.calls v = node.calls v)
    (hsaw : ∀ seen, (node.calls u).saw = [seen] → (next.calls u).saw = [seen])
    (hdecided : ∀ decision, (node.calls u).decided = some decision →
      (next.calls u).decided = some decision) : node.Keeps next := by
  intro t
  by_cases hsame : t = u
  · subst hsame
    exact ⟨hsaw, hdecided⟩
  · rw [hothers t hsame]
    exact ⟨fun _ => id, fun _ => id⟩

theorem Handed.keep (hhanded : node.Handed D tables t)
    (hkeeps : node.Keeps next)
    (hsame : Tables.SameShard (D.shard t) tables others) :
    next.Handed D others t := by
  rcases hhanded with ⟨seen, hsaw, hload⟩
  exact ⟨seen, (hkeeps t).1 seen hsaw, by rwa [hsame.load]⟩

theorem Decided.keep {tx : Tx T} (hdecided : node.Decided D tables tx)
    (hkeeps : node.Keeps next)
    (hsame : Tables.SameShard (D.shard tx.call) tables others) :
    next.Decided D others tx where
  handed := hdecided.handed.keep hkeeps hsame
  written := by
    rcases hdecided.written with ⟨write, hwrite, hwrites⟩
    exact ⟨write, (hkeeps tx.call).2 _ hwrite, hwrites⟩
  numbered := by
    intro row hrow
    rw [hsame.hasRecord]
    exact hdecided.numbered row hrow

/-- What is decided of a transaction is decided by its call and its rows. -/
theorem Decided.congr {tx same : Tx T} (hdecided : node.Decided D tables tx)
    (hkeeps : node.Keeps next) (hcall : same.call = tx.call)
    (hrecord : same.record = tx.record) (hhead : same.head = tx.head) :
    next.Decided D tables same where
  handed := by
    rw [hcall]
    exact hdecided.handed.keep hkeeps (.refl _ _)
  written := by
    rcases hdecided.written with ⟨write, hwrite, hwrites⟩
    refine ⟨write, ?_, ?_⟩
    · rw [hcall]
      exact (hkeeps tx.call).2 _ hwrite
    · cases write <;>
        simpa only [Deployment.Writes, hrecord, hhead] using hwrites
  numbered := by
    rw [hcall, hrecord]
    exact hdecided.numbered

theorem Keeps.move [DecidableEq T] (node : Node T) (t : T) (phase : Phase) :
    node.Keeps (node.move t phase) := by
  refine Keeps.of_others (fun v hne => Node.calls_move_ne node _ hne) ?_ ?_ <;>
    simp

theorem Keeps.of_step [DecidableEq T] {free : ℤ → Prop} {move : Move T}
    {out : Option (Tx T)} (hmatched : node.Matched D)
    (hacts : Acts D tables free node move next out) : node.Keeps next := by
  cases hacts with
  | queued | full | unserved | answers | unsent | orphaned | leaves =>
      exact Keeps.move node _ _
  | @hands u state hactor hcall =>
      have hfresh := (hmatched.coherent u).fresh hcall
      refine Keeps.of_others (fun v hne => Node.calls_set_ne node _ hne) ?_ ?_
      · intro seen hsaw
        rw [hfresh.1] at hsaw
        cases hsaw
      · intro decision hdecided
        rw [hfresh.2] at hdecided
        cases hdecided
  | @decides u hcall decision =>
      have hcoherent := hmatched.coherent u
      simp only [Call.Coherent, hcall] at hcoherent
      refine Keeps.of_others (fun v hne => Node.calls_set_ne node _ hne) ?_ ?_
      · intro seen hsaw
        simpa using hsaw
      · intro other hdecided
        rw [hcoherent.2] at hdecided
        cases hdecided
  | @ships u decision =>
      have hcalls :=
        (decide_serves (node.move u .awaitingDone) u decision).2.2.2
      intro v
      rw [hcalls]
      exact Keeps.move node u .awaitingDone v
  | @insertsRecord u cursor row =>
      exact Keeps.of_calls (recordInserted_serves D node u cursor row).2.2.2
  | _ => exact Keeps.of_calls rfl

/-! ## Keeping in step -/

/-- What is not the actor's doing leaves it in step. -/
theorem InStep.keep (hinStep : node.InStep D tables)
    (hactor : next.actor = node.actor) (hsession : next.session = node.session)
    (hkeeps : node.Keeps next)
    (hsame : ∀ shard, node.lock = some (advisoryKey shard) →
      Tables.SameShard shard tables others) : next.InStep D others := by
  have hlocked : ∀ {t}, node.session = some (D.locked t) →
      Tables.SameShard (D.shard t) tables others := by
    intro t hlock
    apply hsame
    rw [Node.lock, hlock]
    rfl
  unfold InStep at hinStep ⊢
  rw [hactor, hsession]
  cases hwhere : node.actor with
  | readingRecords t cursor =>
      rw [hwhere] at hinStep
      rcases hinStep with ⟨hlock, hhistory, hread⟩
      exact ⟨hlock, hhistory, by rwa [(hlocked hlock).readHead]⟩
  | handing t seen =>
      rw [hwhere] at hinStep
      rcases hinStep with ⟨hlock, hload⟩
      exact ⟨hlock, by rwa [(hlocked hlock).load]⟩
  | awaitingDecision t =>
      rw [hwhere] at hinStep
      rcases hinStep with ⟨hlock, hhanded⟩
      exact ⟨hlock, hhanded.keep hkeeps (hlocked hlock)⟩
  | insertingRecord t cursor row =>
      rw [hwhere] at hinStep
      rcases hinStep with ⟨hlock, hhanded, record, hdecided, hrow⟩
      exact ⟨hlock, hhanded.keep hkeeps (hlocked hlock), record,
        (hkeeps t).2 _ hdecided, hrow⟩
  | insertingHead t head =>
      rw [hwhere] at hinStep
      rcases hinStep with
        ⟨row, hsome, hhanded, hnumber, cursor, record, hdecided, hrows⟩
      have hshard : Tables.SameShard (D.shard t) tables others := by
        apply hsame
        rw [Node.lock, hsome]
        rfl
      exact ⟨row, hsome, hhanded.keep hkeeps hshard,
        by rwa [hshard.hasRecord], cursor, record, (hkeeps t).2 _ hdecided,
        hrows⟩
  | _ =>
      rw [hwhere] at hinStep
      exact hinStep

/-- The head read is the state handed over, unless the records are read. -/
theorem InStep.headRead {cursor : Option HeadCursor}
    (hlock : node.session = some (D.locked t))
    (hread : tables.readHead D.text (D.shard t) = .ok cursor) :
    (node.headRead D t cursor).InStep D tables := by
  unfold InStep Node.headRead
  by_cases hhistory : D.history t = true
  · rw [if_pos hhistory]
    exact ⟨hlock, hhistory, hread⟩
  · rw [if_neg hhistory]
    rw [Bool.not_eq_true] at hhistory
    exact ⟨hlock, by rw [hhistory, Tables.load_head hread]⟩

namespace Sound

/-- What is not the actor's doing leaves the transaction sound. -/
theorem keep (hsound : node.Sound D tables)
    (hconnected : next.connected = true → node.connected = true)
    (hactor : next.actor = node.actor ∨ next.connected = false)
    (hsession : next.session = node.session) (hkeeps : node.Keeps next)
    (hsame : ∀ shard, node.lock = some (advisoryKey shard) →
      Tables.SameShard shard tables others) : next.Sound D others where
  inStep := by
    intro hup
    rcases hactor with hactor | hdown
    · exact (hsound.inStep (hconnected hup)).keep hactor hsession hkeeps hsame
    · rw [hup] at hdown
      cases hdown
  committing := by
    intro tx htx hcommitting
    rw [hsession] at htx
    rcases hsound.committing tx htx hcommitting with ⟨hlock, hdecided⟩
    refine ⟨hlock, hdecided.keep hkeeps ?_⟩
    apply hsame
    rw [Node.lock, htx]
    exact hlock

/-- The transaction is dropped. -/
theorem ends (hsound : node.Sound D tables) (t : T) (answer : Answer) :
    (node.ends t answer).Sound D tables where
  inStep := by
    intro hup
    have hconnected : node.connected = true := hup
    simp only [InStep, Node.ends, hconnected, if_true]
  committing := by
    intro tx htx hcommitting
    simp only [Node.ends] at htx
    split at htx
    · cases htx
    · rcases hsound.committing tx htx hcommitting with ⟨hlock, hdecided⟩
      exact ⟨hlock, hdecided.keep (Keeps.of_calls rfl) (.refl _ _)⟩

/-- `COMMIT` is sent for a transaction that is decided. -/
theorem commits (hsound : node.Sound D tables) (t : T)
    (hready : node.connected = true → ∃ tx, node.session = some tx ∧
      tx.call = t ∧ tx.lock = some (advisoryKey (D.shard t)) ∧
      node.Decided D tables tx) :
    (node.commits t).Sound D tables where
  inStep := by
    intro hup
    have hconnected : node.connected = true := hup
    rcases hready hconnected with ⟨tx, htx, hcall, _⟩
    refine ⟨{ tx with committing := true }, ?_, hcall, rfl⟩
    simp only [Node.commits, hconnected, if_true, htx, Option.map_some]
  committing := by
    intro tx htx hcommitting
    simp only [Node.commits] at htx
    split at htx
    case isTrue hup =>
      rcases hready hup with ⟨before, hbefore, hcall, hlock, hdecided⟩
      rw [hbefore, Option.map_some] at htx
      cases htx
      refine ⟨hcall ▸ hlock, ?_⟩
      exact hdecided.congr (Keeps.of_calls rfl) rfl rfl rfl
    case isFalse =>
      rcases hsound.committing tx htx hcommitting with ⟨hlock, hdecided⟩
      exact ⟨hlock, hdecided.keep (Keeps.of_calls rfl) (.refl _ _)⟩

/-- The actor goes on with the transaction as it is. -/
theorem proceed (hsound : node.Sound D tables)
    (hsession : next.session = node.session)
    (hconnected : next.connected = true → node.connected = true)
    (hkeeps : node.Keeps next)
    (hinStep : node.connected = true → node.InStep D tables →
      next.InStep D tables) : next.Sound D tables where
  inStep := by
    intro hup
    exact hinStep (hconnected hup) (hsound.inStep (hconnected hup))
  committing := by
    intro tx htx hcommitting
    rw [hsession] at htx
    rcases hsound.committing tx htx hcommitting with ⟨hlock, hdecided⟩
    exact ⟨hlock, hdecided.keep hkeeps (.refl _ _)⟩

/-- The transaction is not one the database was told to commit. -/
theorem of_open (hinStep : next.InStep D tables)
    (hopen : ∀ tx, next.session = some tx → tx.committing = false) :
    next.Sound D tables where
  inStep := fun _ => hinStep
  committing := by
    intro tx htx hcommitting
    rw [hopen tx htx] at hcommitting
    cases hcommitting

theorem of_none (hsession : next.session = none)
    (hinStep : next.connected = true → next.InStep D tables) :
    next.Sound D tables where
  inStep := hinStep
  committing := by
    intro tx htx
    rw [hsession] at htx
    cases htx

/-- The caller's decision is taken. -/
theorem decide (hsound : node.Sound D tables) {t : T}
    (hready : node.connected = true →
      node.session = some (D.locked t) ∧ node.Handed D tables t)
    {decision : ShardWrite}
    (hdecided : (node.calls t).decided = some decision) :
    (node.decide t decision).Sound D tables := by
  rcases decision with e | write
  · exact hsound.ends t _
  · rcases write with _ | ⟨cursor, record⟩
    · apply hsound.commits t
      intro hup
      rcases hready hup with ⟨hlock, hhanded⟩
      refine ⟨D.locked t, hlock, rfl, rfl, hhanded, ?_, ?_⟩
      · exact ⟨none, hdecided, rfl, rfl⟩
      · intro row hrow
        cases hrow
    · simp only [Node.decide]
      cases hrow : Tables.recordRow cursor record with
      | error e => exact hsound.ends t _
      | ok row =>
          refine hsound.proceed rfl id (Keeps.of_calls rfl) ?_
          intro hup _
          rcases hready hup with ⟨hlock, hhanded⟩
          exact ⟨hlock, hhanded, record, hdecided, hrow⟩

/-- The record is inserted. -/
theorem recordInserted {t : T} {cursor : HeadCursor} {row : RecordRow}
    (hup : node.connected = true)
    (hlock : node.session = some (D.locked t))
    (hhanded : node.Handed D tables t)
    (hnumber : tables.hasRecord (D.shard t) row.seq = false)
    (hdecided : ∃ record, (node.calls t).decided =
        some (.ok (some (cursor, record))) ∧
      Tables.recordRow cursor record = .ok row) :
    (node.recordInserted D t cursor row).Sound D tables := by
  rcases hdecided with ⟨record, hdecision, hrow⟩
  simp only [Node.recordInserted]
  cases hhead : Tables.headRow D.text cursor with
  | error e =>
      apply of_none
      · simp [Node.ends, hup]
      · intro _
        simp [InStep, Node.ends, hup]
  | ok head =>
      apply of_open
      · refine ⟨row, ?_, hhanded, hnumber, cursor, record, hdecision, hrow,
          hhead⟩
        simp [hlock]
      · intro tx htx
        simp only [hlock, Option.map_some, Option.some.injEq] at htx
        subst htx
        rfl

/-- The head is written and `COMMIT` sent. -/
theorem headInserted {t : T} {head : HeadRow} {row : RecordRow}
    (hup : node.connected = true)
    (hsession : node.session = some { D.locked t with record := some row })
    (hhanded : node.Handed D tables t)
    (hnumber : tables.hasRecord (D.shard t) row.seq = false)
    (hdecided : ∃ cursor record, (node.calls t).decided =
        some (.ok (some (cursor, record))) ∧
      Tables.recordRow cursor record = .ok row ∧
      Tables.headRow D.text cursor = .ok head) :
    (node.headInserted t head).Sound D tables := by
  rcases hdecided with ⟨cursor, record, hdecision, hrow, hhead⟩
  have hnext : (node.headInserted t head).session =
      some { D.locked t with
        record := some row, head := some head, committing := true } := by
    simp [Node.headInserted, Node.commits, hup, hsession]
  constructor
  · intro _
    exact ⟨_, hnext, rfl, rfl⟩
  · intro tx htx _
    rw [hnext, Option.some.injEq] at htx
    subst htx
    refine ⟨rfl, hhanded, ?_, ?_⟩
    · exact ⟨some (cursor, record), hdecision, row, head, hrow, hhead, rfl,
        rfl⟩
    · intro other hother
      cases hother
      exact hnumber

end Sound

/-! ## Every step keeps the transaction sound -/

variable [DecidableEq T] {free : ℤ → Prop} {move : Move T}
  {out : Option (Tx T)}

theorem Sound.step (hmatched : node.Matched D) (hsound : node.Sound D tables)
    (hacts : Acts D tables free node move next out) :
    next.Sound D (out.elim tables (D.commit tables)) := by
  have hkeeps := Keeps.of_step hmatched hacts
  have hinStep := hsound.inStep
  unfold InStep at hinStep
  cases hacts with
  | queued | full | unserved | decides | unsent | orphaned | leaves =>
      exact hsound.keep id (Or.inl rfl) rfl hkeeps (fun _ _ => .refl _ _)
  | stops | loses =>
      exact hsound.keep (fun h => by cases h) (Or.inr rfl) rfl hkeeps
        (fun _ _ => .refl _ _)
  | abandons hconnected | completes hconnected =>
      apply Sound.of_none rfl
      intro hup
      rw [show node.connected = true from hup] at hconnected
      cases hconnected
  | commits hactor hconnected =>
      apply Sound.of_none
      · simp [Node.ends, hconnected]
      · intro _
        simp [InStep, Node.ends, hconnected]
  | headUnreadable | recordsUnreadable | loadFails | unhanded | undecided
  | writeFails => exact hsound.ends _ _
  | receives hactor hqueue =>
      refine hsound.proceed rfl id hkeeps ?_
      intro hup _
      have hnone := hinStep hup
      rw [hactor] at hnone
      unfold InStep
      rcases D.received_cases _ with hbegin | hlist
      · rw [hbegin]
        exact hnone
      · rw [hlist]
        exact hnone
  | begins hactor =>
      refine Sound.of_open rfl ?_
      intro tx htx
      cases htx
      rfl
  | @locks t hactor hconnected =>
      have hsome := hinStep hconnected
      rw [hactor] at hsome
      have hnext : (node.session.map fun (tx : Tx T) =>
          { tx with lock := some (advisoryKey (D.shard t)) }) =
            some (D.locked t) := by
        rw [hsome]
        rfl
      refine Sound.of_open hnext ?_
      intro tx htx
      cases hnext.symm.trans htx
      rfl
  | @readsHead t cursor hactor hconnected hread =>
      refine hsound.proceed rfl id hkeeps ?_
      intro hup _
      have hlock := hinStep hup
      rw [hactor] at hlock
      exact InStep.headRead hlock hread
  | @readsRecords t cursor records hactor hconnected hread =>
      refine hsound.proceed rfl id hkeeps ?_
      intro hup _
      have hstate := hinStep hup
      rw [hactor] at hstate
      rcases hstate with ⟨hlock, hhistory, hhead⟩
      exact ⟨hlock, by rw [hhistory, Tables.load_history hhead hread]⟩
  | @hands t state hactor hcall =>
      refine hsound.proceed rfl id hkeeps ?_
      intro hup _
      have hstate := hinStep hup
      rw [hactor] at hstate
      rcases hstate with ⟨hlock, hload⟩
      have hfresh := (hmatched.coherent t).fresh hcall
      exact ⟨hlock, state, by simp [hfresh.1], hload⟩
  | @ships t decision hactor hcall hdecided =>
      have hmoved : (node.move t .awaitingDone).Sound D tables :=
        hsound.keep id (Or.inl rfl) rfl (Keeps.move node t _)
          (fun _ _ => .refl _ _)
      refine hmoved.decide ?_ (by simpa using hdecided)
      intro hup
      have hstate := hinStep hup
      rw [hactor] at hstate
      exact ⟨hstate.1, hstate.2.keep (Keeps.move node t _) (.refl _ _)⟩
  | @insertsRecord t cursor row hactor hconnected hkey =>
      have hstate := hinStep hconnected
      rw [hactor] at hstate
      rcases hstate with ⟨hlock, hhanded, hdecided⟩
      exact Sound.recordInserted hconnected hlock hhanded hkey hdecided
  | @insertsHead t head hactor hconnected =>
      have hstate := hinStep hconnected
      rw [hactor] at hstate
      rcases hstate with ⟨row, hsome, hhanded, hnumber, hdecided⟩
      exact Sound.headInserted hconnected hsome hhanded hnumber hdecided
  | lists hactor | listFails hactor | notes hactor | unanswered hactor
  | answers hactor =>
      refine hsound.proceed rfl id hkeeps ?_
      intro hup _
      have hnone := hinStep hup
      rw [hactor] at hnone
      exact hnone

end Node

end Decern.Postgres
