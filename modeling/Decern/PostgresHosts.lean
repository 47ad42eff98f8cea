import Decern.PostgresSteps
import Decern.RelyGuarantee
import Mathlib.Tactic

/-!
# Many hosts over one database

Every process appends to the same tables through a connection of its own.
What a process relies on is that the others leave the shard it holds the lock
of alone; what it guarantees is that it writes the shard of the lock it holds.
So the transactions the database committed, in that order, are sections that
ran one after the other, each on what the ones before it had left.
-/

namespace Decern.Postgres

variable {H T : Type}

/-! ## The database the processes share -/

/-- The tables, the advisory locks, and what was committed, in order. -/
structure Shared (H T : Type) where
  tables : Tables
  locks : ℤ → Option H := fun _ => none
  log : List (H × Tx T) := []

variable (hosts : H → Deployment T)

/-- The tables after some committed transactions. -/
def replay (start : Tables) (log : List (H × Tx T)) : Tables :=
  log.foldl (fun tables entry => (hosts entry.1).commit tables entry.2) start

theorem replay_append (start : Tables) (log more : List (H × Tx T)) :
    replay hosts start (log ++ more) =
      replay hosts (replay hosts start log) more := by
  simp [replay]

theorem replay_singleton (start : Tables) (host : H) (tx : Tx T) :
    replay hosts start [(host, tx)] = (hosts host).commit start tx := rfl

/-! ## What a process keeps, and what it relies on -/

/-- The processes before committed what `node`'s own transactions wrote. -/
def Logged (start : Tables) (host : H) (log : List (H × Tx T))
    (node : Node T) : Prop :=
  ∀ before tx after, log = before ++ (host, tx) :: after →
    node.Decided (hosts host) (replay hosts start before) tx ∧
      ∀ other, (host, other) ∈ before → other.call ≠ tx.call

structure Good (start : Tables) (host : H) (shared : Shared H T)
    (node : Node T) : Prop where
  matched : node.Matched (hosts host)
  unseen : node.Unseen
  sound : node.Sound (hosts host) shared.tables
  locks : ∀ key, shared.locks key = some host ↔ node.lock = some key
  replays : shared.tables = replay hosts start shared.log
  logged : Logged hosts start host shared.log node
  once : ∀ tx, node.session = some tx → ∀ other, (host, other) ∈ shared.log →
    other.call ≠ tx.call
  succeeded : ∀ t, node.Succeeded t →
    ∃ tx, (host, tx) ∈ shared.log ∧ tx.call = t

/-- What a process relies on in the steps of the others. -/
structure Rely (start : Tables) (host : H) (shared shared' : Shared H T) :
    Prop where
  locks : ∀ key, shared'.locks key = some host ↔ shared.locks key = some host
  rows : ∀ shard, shared.locks (advisoryKey shard) = some host →
    Tables.SameShard shard shared.tables shared'.tables
  replays : shared'.tables = replay hosts start shared'.log
  log : ∃ more, shared'.log = shared.log ++ more ∧
    ∀ entry ∈ more, entry.1 ≠ host

variable {hosts} {start : Tables} {host : H} {shared shared' : Shared H T}
  {node next : Node T}

/-- An entry of a log that grew by one is an older one or the last. -/
theorem entry_of_concat {log before after : List (H × Tx T)}
    {entry last : H × Tx T}
    (heq : log ++ [last] = before ++ entry :: after) :
    (∃ rest, log = before ++ entry :: rest) ∨
      (before = log ∧ entry = last) := by
  rcases List.eq_nil_or_concat after with hnil | ⟨rest, final, hrest⟩
  · right
    rw [hnil] at heq
    rcases List.append_inj' heq rfl with ⟨hbefore, hentry⟩
    exact ⟨hbefore.symm, (List.singleton_inj.mp hentry).symm⟩
  · left
    rw [hrest, List.concat_eq_append, ← List.cons_append,
      ← List.append_assoc] at heq
    exact ⟨rest, (List.append_inj' heq rfl).1⟩

theorem sameShard_commit {D : Deployment T} {tables : Tables} {tx : Tx T}
    {shard : String} (hne : shard ≠ D.shard tx.call) :
    Tables.SameShard shard tables (D.commit tables tx) := by
  unfold Deployment.commit
  cases tx.record with
  | none =>
      cases tx.head with
      | none => exact .refl _ _
      | some head => exact Tables.sameShard_upsertHead _ _ hne
  | some row =>
      have hwritten := Tables.sameShard_insertRecord tables row hne
      cases tx.head with
      | none => exact hwritten
      | some head => exact hwritten.trans (Tables.sameShard_upsertHead _ _ hne)

theorem Logged.keep {log : List (H × Tx T)}
    (hlogged : Logged hosts start host log node) (hkeeps : node.Keeps next) :
    Logged hosts start host log next := by
  intro before tx after hlog
  rcases hlogged before tx after hlog with ⟨hdecided, hearlier⟩
  exact ⟨hdecided.keep hkeeps (.refl _ _), hearlier⟩

/-- A commit is logged after those it was decided on. -/
theorem Logged.concat {log : List (H × Tx T)} {last : Tx T}
    (hlogged : Logged hosts start host log node)
    (hlast : node.Decided (hosts host) (replay hosts start log) last)
    (honce : ∀ other, (host, other) ∈ log → other.call ≠ last.call) :
    Logged hosts start host (log ++ [(host, last)]) node := by
  intro before tx after hlog
  rcases entry_of_concat hlog with ⟨rest, hrest⟩ | ⟨hbefore, hentry⟩
  · exact hlogged before tx rest hrest
  · cases hentry
    rw [hbefore]
    exact ⟨hlast, honce⟩

namespace Good

theorem saw_of_logged (hgood : Good hosts start host shared node) {tx : Tx T}
    (htx : (host, tx) ∈ shared.log) :
    ∃ seen, (node.calls tx.call).saw = [seen] := by
  rcases List.append_of_mem htx with ⟨before, after, hlog⟩
  rcases (hgood.logged before tx after hlog).1.handed with ⟨seen, hsaw, _⟩
  exact ⟨seen, hsaw⟩

/-- What the others do leaves a process good. -/
theorem stable (hgood : Good hosts start host shared node)
    (hrely : Rely hosts start host shared shared') :
    Good hosts start host shared' node := by
  rcases hrely.log with ⟨more, hlog, hothers⟩
  have hmem : ∀ tx, (host, tx) ∈ shared'.log ↔ (host, tx) ∈ shared.log := by
    intro tx
    rw [hlog, List.mem_append]
    constructor
    · rintro (hold | hnew)
      · exact hold
      · exact absurd rfl (hothers _ hnew)
    · exact Or.inl
  constructor
  case matched => exact hgood.matched
  case unseen => exact hgood.unseen
  case sound =>
    refine hgood.sound.keep id (Or.inl rfl) rfl (Node.Keeps.of_calls rfl) ?_
    intro shard hlock
    exact hrely.rows shard ((hgood.locks _).mpr hlock)
  case locks =>
    intro key
    rw [hrely.locks]
    exact hgood.locks key
  case replays => exact hrely.replays
  case logged =>
    intro before tx after heq
    rw [hlog] at heq
    rcases List.append_eq_append_iff.mp heq with
      ⟨middle, hbefore, hmore⟩ | ⟨middle, hshared, hafter⟩
    · exact absurd rfl (hothers (host, tx) (by simp [hmore]))
    · rcases List.cons_eq_append_iff.mp hafter with
        ⟨hnil, hcons⟩ | ⟨rest, hmiddle, _⟩
      · exact absurd rfl (hothers (host, tx) (by simp [hcons]))
      · exact hgood.logged before tx rest (by rw [hshared, hmiddle])
  case once =>
    intro tx hsession other hother
    exact hgood.once tx hsession other ((hmem other).mp hother)
  case succeeded =>
    intro t hdone
    rcases hgood.succeeded t hdone with ⟨tx, htx, hcall⟩
    exact ⟨tx, (hmem tx).mpr htx, hcall⟩

end Good

/-! ## Steps -/

variable [DecidableEq H] [DecidableEq T]

variable (hosts) in
/-- A process holds the locks of its transaction and no others, and what it
commits is in the tables. -/
def Shared.after (shared : Shared H T) (host : H) (node : Node T)
    (out : Option (Tx T)) : Shared H T where
  tables := out.elim shared.tables ((hosts host).commit shared.tables)
  locks := fun key =>
    if node.lock = some key then some host
    else if shared.locks key = some host then none
    else shared.locks key
  log := shared.log ++ out.toList.map fun tx => (host, tx)

variable (hosts) in
/-- A step of one process. -/
def HostActs (host : H) (shared : Shared H T) (node : Node T)
    (shared' : Shared H T) (node' : Node T) : Prop :=
  ∃ move out, Acts (hosts host) shared.tables
      (fun key => shared.locks key = none) node move node' out ∧
    shared' = shared.after hosts host node' out

abbrev World (H T : Type) := RelyGuarantee.State H (Shared H T) (Node T)

/-- The processes have just started. -/
def World.initial (tables : Tables) : World H T where
  shared := { tables := tables }
  parts := fun _ => {}

variable (hosts) in
abbrev Reaches : World H T → World H T → Prop :=
  RelyGuarantee.Reaches (HostActs hosts)

omit [DecidableEq T] in
theorem replays_after (out : Option (Tx T))
    (hreplays : shared.tables = replay hosts start shared.log) :
    (shared.after hosts host next out).tables =
      replay hosts start (shared.after hosts host next out).log := by
  cases out with
  | none => simpa [Shared.after] using hreplays
  | some tx =>
      simp only [Shared.after, Option.elim_some, Option.toList_some,
        List.map_cons, List.map_nil, replay_append, replay_singleton]
      rw [hreplays]

omit [DecidableEq T] in
theorem mem_log_after {entry : H × Tx T} {out : Option (Tx T)} :
    entry ∈ (shared.after hosts host next out).log ↔
      entry ∈ shared.log ∨ ∃ tx, out = some tx ∧ entry = (host, tx) := by
  cases out <;> simp [Shared.after, eq_comm]

namespace Good

/-- A process keeps what it is good for. -/
theorem own (hgood : Good hosts start host shared node)
    (hacts : HostActs hosts host shared node shared' next) :
    Good hosts start host shared' next := by
  rcases hacts with ⟨move, out, hacts, rfl⟩
  have hkeeps := Node.Keeps.of_step hgood.matched hacts
  have hcommitted : ∀ tx, out = some tx →
      node.session = some tx ∧ tx.committing = true := by
    rintro tx rfl
    exact Node.session_of_out hgood.sound hacts
  constructor
  case matched => exact hgood.matched.step hacts
  case unseen => exact hgood.unseen.step hgood.matched hacts
  case sound => exact hgood.sound.step hgood.matched hacts
  case locks =>
    intro key
    simp only [Shared.after]
    by_cases hlock : next.lock = some key
    · simp [hlock]
    · by_cases hmine : shared.locks key = some host <;> simp [hlock, hmine]
  case replays => exact replays_after out hgood.replays
  case logged =>
    cases out with
    | none =>
        simp only [Shared.after, Option.toList_none, List.map_nil,
          List.append_nil]
        exact hgood.logged.keep hkeeps
    | some tx =>
        rcases hcommitted tx rfl with ⟨hsession, hcommitting⟩
        have hdecided := (hgood.sound.committing tx hsession hcommitting).2
        rw [hgood.replays] at hdecided
        exact (hgood.logged.concat hdecided (hgood.once tx hsession)).keep
          hkeeps
  case once =>
    intro tx hsession other hother
    cases out with
    | some last =>
        rw [Node.session_after_out hacts] at hsession
        cases hsession
    | none =>
        have hlogged : (host, other) ∈ shared.log := by
          simpa [Shared.after] using hother
        rcases Node.call_step hacts hsession with
          ⟨before, hbefore, hcall⟩ | hbegun
        · rw [← hcall]
          exact hgood.once before hbefore other hlogged
        · intro hsame
          have hnone := hgood.unseen tx.call
            (Or.inr (congrArg Actor.early hbegun))
          rcases hgood.saw_of_logged hlogged with ⟨seen, hsaw⟩
          rw [hsame, hnone] at hsaw
          cases hsaw
  case succeeded =>
    intro t hnext
    rcases Node.succeeded_step hgood.sound hacts hnext with
      hbefore | ⟨tx, hout, hcall⟩
    · rcases hgood.succeeded t hbefore with ⟨tx, hmem, hcall⟩
      exact ⟨tx, mem_log_after.mpr (Or.inl hmem), hcall⟩
    · exact ⟨tx, mem_log_after.mpr (Or.inr ⟨tx, hout, rfl⟩), hcall⟩

/-- A process guarantees what the others rely on. -/
theorem guarantee {other : H} (hne : other ≠ host)
    (hgood : Good hosts start other shared node)
    (hacts : HostActs hosts other shared node shared' next) :
    Rely hosts start host shared shared' := by
  have hreplays := (hgood.own hacts).replays
  rcases hacts with ⟨move, out, hacts, rfl⟩
  constructor
  case locks =>
    intro key
    simp only [Shared.after]
    by_cases hlock : next.lock = some key
    · have hfree : shared.locks key ≠ some host := by
        rcases Node.lock_step hacts hlock with hbefore | hfree
        · rw [(hgood.locks key).mpr hbefore]
          simpa using hne
        · rw [hfree]
          simp
      simp [hlock, hfree, hne]
    · by_cases hmine : shared.locks key = some other
      · simp [hlock, hmine, hne]
      · simp [hlock, hmine]
  case rows =>
    intro shard hlock
    cases out with
    | none => exact .refl _ _
    | some tx =>
        rcases Node.session_of_out hgood.sound hacts with
          ⟨hsession, hcommitting⟩
        have hheld := (hgood.sound.committing tx hsession hcommitting).1
        apply sameShard_commit
        rintro rfl
        have htheirs : node.lock =
            some (advisoryKey ((hosts other).shard tx.call)) := by
          rw [Node.lock, hsession]
          exact hheld
        rw [(hgood.locks _).mpr htheirs] at hlock
        exact hne (Option.some.inj hlock)
  case replays => exact hreplays
  case log =>
    refine ⟨out.toList.map fun tx => (other, tx), rfl, ?_⟩
    intro entry hentry
    rcases List.mem_map.mp hentry with ⟨tx, _, rfl⟩
    exact hne

end Good

omit [DecidableEq H] [DecidableEq T] in
theorem good_initial (start : Tables) (host : H) :
    Good hosts start host { tables := start } {} where
  matched :=
    { queued := by simp
      distinct := List.nodup_nil
      apart := by simp
      fits := by simp [Actor.serves]
      held := by simp [Phase.pending]
      drained := by simp
      coherent := by simp [Call.Coherent] }
  unseen := by simp [Node.Unseen]
  sound := .of_none rfl (fun _ => rfl)
  locks := by simp [Node.lock]
  replays := rfl
  logged := by
    intro before tx after hlog
    simp at hlog
  once := by simp
  succeeded := by simp [Node.Succeeded]

/-- The tables hold what was committed. -/
theorem replays_of_reaches {world : World H T}
    (hreaches : Reaches hosts (World.initial start) world) :
    world.shared.tables = replay hosts start world.shared.log := by
  induction hreaches with
  | refl => rfl
  | tail _ hstep ih =>
      cases hstep with
      | part host hacts =>
          rcases hacts with ⟨move, out, _, rfl⟩
          exact replays_after out ih

/-- In every state the processes reach, each is good. -/
theorem good_of_reaches {world : World H T}
    (hreaches : Reaches hosts (World.initial start) world) (host : H) :
    Good hosts start host world.shared (world.parts host) := by
  refine RelyGuarantee.reaches_keeps (Rely hosts start) ?_ ?_ ?_ hreaches
    (fun host => good_initial start host) host
  · intro host shared node shared' next hgood hacts
    exact hgood.own hacts
  · intro host other shared node shared' next hne hgood hacts
    exact hgood.guarantee hne hacts
  · intro host shared node shared' hgood hrely
    exact hgood.stable hrely

end Decern.Postgres
