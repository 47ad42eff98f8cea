import Decern.PostgresRuns
import Decern.PostgresSigners
import Decern.SamplePlatform
import Decern.ShardCallbacks
import Decern.ShardedReturn
import Mathlib.Tactic

/-!
# Sharded ledgers over the database

Every process appends under a key and a keyring of its own.  What the tables
hold of a shard is what the committed sections on it leave one after the
other, so every shard is one chain that verifies, and a record an append
returned stays where it was numbered.
-/

namespace Decern.Postgres

variable {P : Platform} {H T : Type}

/-! ## A shard in the tables -/

namespace Tables

/-- The tables hold a shard under a name. -/
structure Holds (P : Platform) (tables : Tables) (name : String)
    (shard : Shard) : Prop where
  head : tables.readHead (signersText P) name = .ok shard.cursor
  records : tables.records name =
    shard.records.map fun record => ⟨record.seq, record.recordJson⟩

variable {tables others : Tables} {name : String} {shard : Shard}

theorem Holds.readRecords (hholds : tables.Holds P name shard) :
    tables.readRecords name = .ok shard.records := by
  rw [Tables.readRecords, hholds.records]
  induction shard.records with
  | nil => rfl
  | cons record rest ih =>
      have hrecord : recordOf ⟨record.seq, record.recordJson⟩ =
          .ok record := by
        simp [recordOf, fromI64, bind, Except.bind, pure, Except.pure]
      rw [List.map_cons, List.mapM_cons, hrecord, ih]
      rfl

/-- What a section is handed of it. -/
theorem Holds.load (hholds : tables.Holds P name shard) (history : Bool) :
    tables.load (signersText P) name history =
      .ok (shard.cursor, if history then shard.records else []) := by
  cases history with
  | false => exact load_head hholds.head
  | true => exact load_history hholds.head hholds.readRecords

theorem Holds.keep (hholds : tables.Holds P name shard)
    (hsame : SameShard name tables others) : others.Holds P name shard where
  head := by
    rw [hsame.readHead]
    exact hholds.head
  records := by
    rw [hsame.2]
    exact hholds.records

/-- A row numbered after all others is inserted last. -/
theorem orderedInsert_last {rows : List RecordRow} {row : RecordRow}
    (hlast : ∀ other ∈ rows, other.seq < row.seq) :
    rows.orderedInsert (fun a b => a.seq ≤ b.seq) row = rows ++ [row] := by
  induction rows with
  | nil => rfl
  | cons first rest ih =>
      have hfirst := hlast first (by simp)
      rw [List.orderedInsert_cons, if_neg (by omega), ih]
      · rfl
      · intro other hother
        exact hlast other (List.mem_cons_of_mem _ hother)

/-- One more record and the head that counts it. -/
theorem Holds.commit (hholds : tables.Holds P name shard)
    (hnumbered : shard.records.map StoredRecord.seq =
      List.range shard.records.length)
    {cursor : HeadCursor} (hnext : cursor.nextSeq = shard.records.length + 1)
    {line : String} {row : RecordRow} {head : HeadRow}
    (hrow : recordRow cursor line = .ok row)
    (hhead : headRow (signersText P) cursor = .ok head) :
    ((tables.insertRecord name row).upsertHead name head).Holds P name
      (shard.commit cursor line) := by
  have hlength : cursor.nextSeq - 1 = shard.records.length := by omega
  have hrow : row = ⟨(shard.records.length : ℕ), line⟩ := by
    unfold recordRow toI64 at hrow
    rw [hlength] at hrow
    by_cases hlimit : shard.records.length < 9223372036854775808
    · simp only [hlimit, if_true] at hrow
      exact (Except.ok.inj hrow).symm
    · simp only [hlimit, if_false] at hrow
      cases hrow
  constructor
  case head =>
    have hfound : ((tables.insertRecord name row).upsertHead name
        head).heads[name]? = some head := by
      simp [upsertHead]
    rw [Tables.readHead, hfound]
    simp only [cursorOf_headRow P hhead]
    rfl
  case records =>
    simp only [upsertHead, insertRecord, Function.update_self]
    rw [orderedInsert_last, hholds.records, hrow, Shard.commit, hlength]
    · simp
    · intro other hother
      rw [hholds.records, List.mem_map] at hother
      rcases hother with ⟨record, hrecord, rfl⟩
      have hseq := List.mem_map_of_mem (f := StoredRecord.seq) hrecord
      rw [hnumbered, List.mem_range] at hseq
      rw [hrow]
      simpa using hseq

theorem holds_empty (name : String) :
    emptyTables.Holds P name {} where
  head := by simp [Tables.readHead, emptyTables]
  records := rfl

end Tables

/-! ## Processes of the server -/

/-- A call on a process's store. -/
inductive LedgerJob (P : Platform) where
  | enters (name : String) (visit : ShardSection P)
  | listShards

namespace LedgerJob

def job : LedgerJob P → Job
  | .enters name visit => .withShard name visit.history
  | .listShards => .listShards

/-- What the call's callback answers the store. -/
def callback : LedgerJob P → ShardState → ShardWrite
  | .enters name visit => visit.callback name
  | .listShards => fun _ => .ok none

end LedgerJob

structure LedgerHost (P : Platform) (T : Type) where
  depth : ℕ
  call : T → LedgerJob P

namespace LedgerHost

def deployment (host : LedgerHost P T) : Deployment T where
  depth := host.depth
  text := signersText P
  job t := (host.call t).job

/-- The entries its sections seal are within the verifier's limit. -/
def Within (host : LedgerHost P T) : Prop :=
  ∀ t name visit, host.call t = .enters name visit → visit.Within

variable {host : LedgerHost P T} {t : T} {name : String}
  {visit : ShardSection P}

theorem shard_visit (hcall : host.call t = .enters name visit) :
    host.deployment.shard t = name := by
  simp [Deployment.shard, deployment, hcall, LedgerJob.job]

theorem history_visit (hcall : host.call t = .enters name visit) :
    host.deployment.history t = visit.history := by
  simp [Deployment.history, deployment, hcall, LedgerJob.job]

end LedgerHost

variable (ledgers : H → LedgerHost P T)

/-- A callback that was run decided what its section answers; what a call saw
and decided stays, so this is said of the whole run. -/
def Follows (world : World H T) : Prop :=
  ∀ host t seen decision, ((world.parts host).calls t).saw = [seen] →
    ((world.parts host).calls t).decided = some decision →
    decision = ((ledgers host).call t).callback seen

/-- The section of a committed transaction, if it is on a shard. -/
def sectionOn (name : String) (entry : H × Tx T) : Option (ShardSection P) :=
  match (ledgers entry.1).call entry.2.call with
  | .enters other visit => if other = name then some visit else none
  | .listShards => none

/-- What the committed sections on a shard leave one after the other. -/
def shardAfter (name : String) (log : List (H × Tx T)) : Shard :=
  StateRun.run (ShardSection.next name) {} (log.filterMap
    (sectionOn ledgers name))

/-- An append returned a record. -/
def Appended (world : World H T) (host : H) (t : T) (name : String)
    (record : RecordOut) : Prop :=
  ((world.parts host).calls t).phase = .returned (.ok ()) ∧
    ∃ visit seen, (ledgers host).call t = .enters name visit ∧
      ((world.parts host).calls t).saw = [seen] ∧
      (visit.enter name ⟨seen.1, seen.2⟩).1 = .ok (some record)

/-! ## One committed section -/

variable {ledgers}

theorem sectionOn_visit {name : String} {host : H} {tx : Tx T}
    {visit : ShardSection P}
    (hcall : (ledgers host).call tx.call = .enters name visit) :
    sectionOn ledgers name (host, tx) = some visit := by
  simp [sectionOn, hcall]

theorem shardAfter_append (name : String) (log more : List (H × Tx T)) :
    shardAfter ledgers name (log ++ more) =
      StateRun.run (ShardSection.next name) (shardAfter ledgers name log)
        (more.filterMap (sectionOn ledgers name)) := by
  rw [shardAfter, List.filterMap_append, StateRun.run_append]
  rfl

theorem shardAfter_concat {name : String} {log : List (H × Tx T)}
    {host : H} {tx : Tx T} {visit : ShardSection P}
    (hcall : (ledgers host).call tx.call = .enters name visit) :
    shardAfter ledgers name (log ++ [(host, tx)]) =
      visit.next name (shardAfter ledgers name log) := by
  rw [shardAfter_append]
  simp [sectionOn_visit hcall]

theorem shardAfter_concat_of_none {name : String} {log : List (H × Tx T)}
    {entry : H × Tx T} (hnone : sectionOn ledgers name entry = none) :
    shardAfter ledgers name (log ++ [entry]) =
      shardAfter ledgers name log := by
  rw [shardAfter_append]
  simp [hnone]

theorem named_shardAfter (hwithin : ∀ host, (ledgers host).Within)
    (name : String) (log : List (H × Tx T)) :
    (shardAfter ledgers name log).Named P := by
  induction log using List.reverseRecOn with
  | nil => exact Shard.Named.empty
  | append_singleton log entry ih =>
      rcases entry with ⟨host, tx⟩
      cases hcall : (ledgers host).call tx.call with
      | listShards =>
          rw [shardAfter_concat_of_none (by simp [sectionOn, hcall])]
          exact ih
      | enters other visit =>
          by_cases hname : other = name
          · subst hname
            rw [shardAfter_concat hcall]
            exact ih.next other (hwithin host tx.call other visit hcall)
          · rw [shardAfter_concat_of_none (by simp [sectionOn, hcall, hname])]
            exact ih

/-- What the database holds after a transaction its section decided. -/
theorem holds_commit {tables : Tables} {name : String} {shard : Shard}
    {world : World H T} {host : H} {tx : Tx T}
    (hholds : tables.Holds P name shard) (hnamed : shard.Named P)
    (hfollows : Follows ledgers world)
    (hdecided : (world.parts host).Decided (ledgers host).deployment tables
      tx) {visit : ShardSection P}
    (hcall : (ledgers host).call tx.call = .enters name visit) :
    ((ledgers host).deployment.commit tables tx).Holds P name
      (visit.next name shard) := by
  rcases hdecided.handed with ⟨seen, hsaw, hload⟩
  rcases hdecided.written with ⟨write, hwrite, hwrites⟩
  have hshard := LedgerHost.shard_visit hcall
  rw [hshard, LedgerHost.history_visit hcall] at hload
  have hseen : visit.handed shard = seen := by
    have hheld := hholds.load visit.history
    exact Except.ok.inj (hheld.symm.trans hload)
  have hanswer := hfollows host tx.call seen (.ok write) hsaw hwrite
  rw [hcall, LedgerJob.callback, ← hseen] at hanswer
  rcases visit.callback_cases name shard with
    ⟨hnothing, hsame, _⟩ | ⟨record, cursor, hwrote, _, hnext, hseq, _⟩
  · rw [hnothing] at hanswer
    cases hanswer
    rcases hwrites with ⟨hrecord, hhead⟩
    rw [hsame]
    unfold Deployment.commit
    simp only [hrecord, hhead]
    exact hholds
  · rw [hwrote] at hanswer
    cases hanswer
    rcases hwrites with ⟨row, head, hrow, hhead, hrecord, hhead'⟩
    rw [hnext]
    unfold Deployment.commit
    simp only [hrecord, hhead', hshard]
    rw [hnamed.nextSeq] at hseq
    exact hholds.commit hnamed.numbered hseq hrow hhead

/-- A transaction that is of no section on a shard leaves it alone. -/
theorem holds_commit_of_none {tables : Tables} {name : String}
    {shard : Shard} {world : World H T} {host : H} {tx : Tx T}
    (hholds : tables.Holds P name shard) (hfollows : Follows ledgers world)
    (hdecided : (world.parts host).Decided (ledgers host).deployment tables
      tx) (hnone : sectionOn ledgers name (host, tx) = none) :
    ((ledgers host).deployment.commit tables tx).Holds P name shard := by
  cases hcall : (ledgers host).call tx.call with
  | enters other visit =>
      have hne : name ≠ (ledgers host).deployment.shard tx.call := by
        rw [LedgerHost.shard_visit hcall]
        rintro rfl
        rw [sectionOn_visit hcall] at hnone
        cases hnone
      exact hholds.keep (sameShard_commit hne)
  | listShards =>
      rcases hdecided.handed with ⟨seen, hsaw, _⟩
      rcases hdecided.written with ⟨write, hwrite, hwrites⟩
      have hanswer := hfollows host tx.call seen (.ok write) hsaw hwrite
      rw [hcall] at hanswer
      cases hanswer
      rcases hwrites with ⟨hrecord, hhead⟩
      unfold Deployment.commit
      simp only [hrecord, hhead]
      exact hholds

/-! ## Runs -/

/-- Why a transaction of the log was committed. -/
def Explained (ledgers : H → LedgerHost P T) (world : World H T) : Prop :=
  ∀ before host tx after, world.shared.log = before ++ (host, tx) :: after →
    (world.parts host).Decided (ledgers host).deployment
      (replay (fun host => (ledgers host).deployment) emptyTables before) tx

theorem explained_of_reaches [DecidableEq H] [DecidableEq T]
    {world : World H T}
    (hreaches : Reaches (fun host => (ledgers host).deployment)
      (World.initial emptyTables) world) : Explained ledgers world := by
  intro before host tx after hlog
  exact ((good_of_reaches hreaches host).logged before tx after hlog).1

section Explained

variable {world : World H T} (hexplained : Explained ledgers world)
  (hfollows : Follows ledgers world)
  (hwithin : ∀ host, (ledgers host).Within)

include hexplained hfollows hwithin

/-- Along the log the tables hold each shard its sections leave. -/
theorem holds_shardAfter (name : String) {before : List (H × Tx T)} :
    ∀ {after}, world.shared.log = before ++ after →
      (replay (fun host => (ledgers host).deployment) emptyTables
        before).Holds P name (shardAfter ledgers name before) := by
  induction before using List.reverseRecOn with
  | nil =>
      intro after _
      exact Tables.holds_empty name
  | append_singleton before entry ih =>
      intro after hlog
      rcases entry with ⟨host, tx⟩
      rw [List.append_assoc, List.singleton_append] at hlog
      have hholds := ih hlog
      have hdecided := hexplained before host tx after hlog
      rw [replay_append, replay_singleton]
      cases hsection : sectionOn ledgers name (host, tx) with
      | none =>
          rw [shardAfter_concat_of_none hsection]
          exact holds_commit_of_none hholds hfollows hdecided hsection
      | some visit =>
          have hcall : (ledgers host).call tx.call = .enters name visit := by
            unfold sectionOn at hsection
            split at hsection
            case h_1 other found hfound =>
              split at hsection
              case isTrue hname =>
                rw [hfound, hname, Option.some.inj hsection]
              case isFalse => cases hsection
            case h_2 => cases hsection
          rw [shardAfter_concat hcall]
          exact holds_commit hholds (named_shardAfter hwithin name before)
            hfollows hdecided hcall

/-- An append returned the record its section sealed on what the sections
before it had left. -/
theorem appended_at {host : H} {name : String} {record : RecordOut}
    {before after : List (H × Tx T)} {tx : Tx T}
    (hlog : world.shared.log = before ++ (host, tx) :: after)
    (happended : Appended ledgers world host tx.call name record) :
    record.entry.seq = (shardAfter ledgers name before).records.length ∧
      (shardAfter ledgers name (before ++ [(host, tx)])).records =
        (shardAfter ledgers name before).records ++
          [⟨record.entry.seq, record.line P⟩] := by
  rcases happended with ⟨_, visit, seen, hcall, hsaw, henter⟩
  have hholds := holds_shardAfter hexplained hfollows hwithin name hlog
  have hnamed := named_shardAfter hwithin name before
  rcases (hexplained before host tx after hlog).handed with
    ⟨other, hother, hload⟩
  rw [hsaw] at hother
  cases hother
  rw [LedgerHost.shard_visit hcall, LedgerHost.history_visit hcall] at hload
  have hseen : visit.handed (shardAfter ledgers name before) = seen :=
    Except.ok.inj ((hholds.load visit.history).symm.trans hload)
  rw [← hseen, (visit.enter_handed name _).1] at henter
  rcases visit.callback_cases name (shardAfter ledgers name before) with
    ⟨_, _, hnothing⟩ | ⟨found, cursor, _, hfound, hnext, hseq, hnumber, _⟩
  · exact absurd henter (hnothing record)
  · rw [henter] at hfound
    cases hfound
    rw [shardAfter_concat hcall, hnext]
    refine ⟨hnumber.trans hnamed.nextSeq, ?_⟩
    rw [Shard.commit, hseq, hnumber, Nat.add_sub_cancel]

variable (ledgers) in
omit hexplained hfollows hwithin in
theorem records_shardAfter (name : String) (log more : List (H × Tx T)) :
    ∃ records, (shardAfter ledgers name (log ++ more)).records =
      (shardAfter ledgers name log).records ++ records := by
  rw [shardAfter_append]
  exact ShardSection.records_run name _ _

/-- Of two appends in the log the later one has the later number. -/
theorem seq_lt_of_appended {host other : H} {name : String}
    {record found : RecordOut} {before middle after : List (H × Tx T)}
    {tx later : Tx T}
    (hlog : world.shared.log =
      before ++ (host, tx) :: (middle ++ (other, later) :: after))
    (happended : Appended ledgers world host tx.call name record)
    (hlater : Appended ledgers world other later.call name found) :
    record.entry.seq < found.entry.seq := by
  have hsplit : world.shared.log =
      (before ++ [(host, tx)] ++ middle) ++ (other, later) :: after := by
    rw [hlog]
    simp
  have hfirst := (appended_at hexplained hfollows hwithin hlog happended).2
  have hsecond := (appended_at hexplained hfollows hwithin hsplit hlater).1
  rcases records_shardAfter ledgers name
    (before ++ [(host, tx)]) middle with ⟨more, hmore⟩
  have hseq := (appended_at hexplained hfollows hwithin hlog happended).1
  rw [hmore, hfirst] at hsecond
  simp only [List.length_append, List.length_singleton] at hsecond
  omega

end Explained

/-- Over any run of any number of processes, each under its own key and ring,
the database holds of every shard what the committed sections on it leave one
after the other, and that verifies.  A record an append returned is where it
is numbered, and no other append returned that number. -/
theorem ledgers_linearized [DecidableEq H] [DecidableEq T]
    {ledgers : H → LedgerHost P T} {world : World H T} (hone : P.OneSigner)
    (hreaches : Reaches (fun host => (ledgers host).deployment)
      (World.initial emptyTables) world)
    (hfollows : Follows ledgers world)
    (hwithin : ∀ host, (ledgers host).Within) :
    (∀ name,
      world.shared.tables.load (signersText P) name true =
          .ok ((shardAfter ledgers name world.shared.log).cursor,
            (shardAfter ledgers name world.shared.log).records) ∧
        (shardAfter ledgers name world.shared.log).Verifies P) ∧
      (∀ host t name record, Appended ledgers world host t name record →
        (shardAfter ledgers name
            world.shared.log).records[record.entry.seq]? =
          some ⟨record.entry.seq, record.line P⟩) ∧
      ∀ host t other u name record found,
        Appended ledgers world host t name record →
        Appended ledgers world other u name found →
        record.entry.seq = found.entry.seq → host = other ∧ t = u := by
  have hexplained := explained_of_reaches hreaches
  have hlogged : ∀ {host t name record},
      Appended ledgers world host t name record →
      ∃ before tx after, world.shared.log = before ++ (host, tx) :: after ∧
        tx.call = t := by
    intro host t name record happended
    rcases (good_of_reaches hreaches host).succeeded t
      (Or.inl happended.1) with ⟨tx, htx, hcall⟩
    rcases List.append_of_mem htx with ⟨before, after, hlog⟩
    exact ⟨before, tx, after, hlog, hcall⟩
  refine ⟨?_, ?_, ?_⟩
  · intro name
    have hholds := holds_shardAfter hexplained hfollows hwithin name
      (List.append_nil world.shared.log).symm
    rw [← replays_of_reaches hreaches] at hholds
    exact ⟨hholds.load true,
      (named_shardAfter hwithin name world.shared.log).kept.verifies hone⟩
  · intro host t name record happended
    rcases hlogged happended with ⟨before, tx, after, hlog, rfl⟩
    rcases appended_at hexplained hfollows hwithin hlog happended with
      ⟨hseq, hrecords⟩
    have hsplit : world.shared.log = (before ++ [(host, tx)]) ++ after := by
      rw [hlog]
      simp
    rcases records_shardAfter ledgers name
      (before ++ [(host, tx)]) after with ⟨more, hmore⟩
    rw [hsplit, hmore, hrecords, List.append_assoc, hseq]
    simp
  · intro host t other u name record found happended hfound hseq
    rcases hlogged happended with ⟨before, tx, after, hlog, rfl⟩
    rcases hlogged hfound with ⟨earlier, later, rest, hlater, rfl⟩
    rcases List.append_eq_append_iff.mp (hlog.symm.trans hlater) with
      ⟨middle, hearlier, hafter⟩ | ⟨middle, hbefore, hafter⟩
    · rcases List.cons_eq_append_iff.mp hafter with
        ⟨_, hsame⟩ | ⟨between, hmiddle, hrest⟩
      · cases hsame
        exact ⟨rfl, rfl⟩
      · have hlt := seq_lt_of_appended hexplained hfollows hwithin
          (hlog.trans (by rw [hrest])) happended hfound
        omega
    · rcases List.cons_eq_append_iff.mp hafter with
        ⟨_, hsame⟩ | ⟨between, hmiddle, hrest⟩
      · cases hsame
        exact ⟨rfl, rfl⟩
      · have hlt := seq_lt_of_appended hexplained hfollows hwithin
          (hlater.trans (by rw [hrest])) hfound happended
        omega

/-! ## Two processes append -/

/-- An append under a key and a ring. -/
def visitUnder (key : SigningKey) (retired : List VerifyingKey) :
    ShardSection samplePlatform :=
  .atHead (.new samplePlatform key retired) (sampleEntry .null) .ok

def firstVisit : ShardSection samplePlatform := visitUnder (sampleKey 1) []

/-- The second process holds the first's key. -/
def secondVisit : ShardSection samplePlatform :=
  visitUnder (sampleKey 2) [sampleKey 1]

def pairLedger (second : Bool) : LedgerHost samplePlatform Unit where
  depth := 1
  call _ := .enters "tenant" (if second then secondVisit else firstVisit)

theorem pairLedger_within (host : Bool) : (pairLedger host).Within := by
  rintro t name visit ⟨⟩
  cases host <;> rintro entry ⟨⟩ <;>
    exact sampleEntry_lineWithinLimit.withinLimit

/-- What one section on a head returns and writes. -/
structure Writes (visit : ShardSection samplePlatform)
    (found : Option HeadCursor) (record : RecordOut) (cursor : HeadCursor)
    (row : RecordRow) (head : HeadRow) : Prop where
  callback : visit.callback "tenant" (found, []) =
    .ok (some (cursor, record.line samplePlatform))
  enter : (visit.enter "tenant" ⟨found, []⟩).1 = .ok (some record)
  row : Tables.recordRow cursor (record.line samplePlatform) = .ok row
  head : Tables.headRow (signersText samplePlatform) cursor = .ok head

theorem pair_writes :
    ∃ (first second : RecordOut) (cursor next : HeadCursor)
      (row other : RecordRow) (head last : HeadRow),
      Writes firstVisit none first cursor row head ∧
        Writes secondVisit (some cursor) second next other last ∧
        cursor.nextSeq = 1 ∧ other.seq = 1 :=
  ⟨_, _, _, _, _, _, _, _, ⟨rfl, rfl, rfl, rfl⟩, ⟨rfl, rfl, rfl, rfl⟩,
    rfl, rfl⟩

theorem Writes.appended {world : World Bool Unit} {host : Bool}
    {node : Node Unit} {visit : ShardSection samplePlatform}
    {found : Option HeadCursor} {record : RecordOut} {cursor : HeadCursor}
    {row : RecordRow} {head : HeadRow}
    (hwrites : Writes visit found record cursor row head)
    (hcall : (pairLedger host).call () = .enters "tenant" visit)
    (hnode : world.parts host = node)
    (hsaw : (node.calls ()).saw = [(found, [])])
    (hphase : (node.calls ()).phase = .returned (.ok ())) :
    Appended pairLedger world host () "tenant" record := by
  refine ⟨by rw [hnode, hphase], visit, (found, []), hcall, ?_,
    hwrites.enter⟩
  rw [hnode, hsaw]

theorem ledgers_linearized_pair :
    ∃ (world : World Bool Unit) (shard : Shard) (first second : RecordOut),
      Appended pairLedger world false () "tenant" first ∧
        Appended pairLedger world true () "tenant" second ∧
        first.entry.seq ≠ second.entry.seq ∧
        world.shared.tables.load (signersText samplePlatform) "tenant" true =
          .ok (shard.cursor, shard.records) ∧
        shard.records[first.entry.seq]? =
          some ⟨first.entry.seq, first.line samplePlatform⟩ ∧
        shard.records[second.entry.seq]? =
          some ⟨second.entry.seq, second.line samplePlatform⟩ ∧
        shard.Verifies samplePlatform := by
  rcases pair_writes with ⟨first, second, cursor, next, row, other, head,
    last, hfirst, hsecond, hnext, hone⟩
  have hinitial : AloneReaches (fun host => (pairLedger host).deployment)
    false (fun _ => {}) emptyTables [] {} := aloneReaches_initial
  have hwaits := hinitial.queued (fun _ _ => rfl) Nat.one_pos rfl
  have hempty : emptyTables.Holds samplePlatform "tenant" {} :=
    Tables.holds_empty "tenant"
  rcases hwaits.commits (fun _ _ => rfl) rfl hempty.head rfl hfirst.row
    hfirst.head with ⟨node, hcommitted, hsaw, hdecided, hphase, hlock⟩
  have hheld := hempty.commit (by rfl) hnext hfirst.row hfirst.head
  have hturn := hcommitted.turn Bool.false_ne_true.symm rfl
  have hcalled := hturn.queued (by simp [hlock]) Nat.one_pos rfl
  have hkey : (((pairLedger false).deployment.commit emptyTables
      (writtenTx (pairLedger false).deployment row head)).hasRecord "tenant"
        other.seq) = false := by
    have hrows := hheld.records
    simp only [Shard.commit, List.nil_append, List.map_cons, List.map_nil,
      hnext] at hrows
    exact (congrArg (List.any · fun row => row.seq == other.seq)
      hrows).trans (by rw [hone])
  rcases hcalled.commits (by simp [hlock]) rfl hheld.head hkey hsecond.row
    hsecond.head with
      ⟨latest, ⟨world, hworld, hparts, _⟩, hread, hanswered, hdone, _⟩
  have hnode : world.parts false = node := by
    rw [hparts]
    rfl
  have hlatest : world.parts true = latest := by
    rw [hparts]
    rfl
  have hfollows : Follows pairLedger world := by
    rintro (_ | _) t seen decision hseen hdecision
    · rw [hnode] at hseen hdecision
      cases hsaw.symm.trans hseen
      cases hdecided.symm.trans hdecision
      exact hfirst.callback.symm
    · rw [hlatest] at hseen hdecision
      cases hread.symm.trans hseen
      cases hanswered.symm.trans hdecision
      exact hsecond.callback.symm
  have hhad := hfirst.appended rfl hnode hsaw hphase
  have hhas := hsecond.appended rfl hlatest hread hdone
  rcases ledgers_linearized samplePlatform_oneSigner hworld hfollows
    pairLedger_within with ⟨hshards, hstored, hapart⟩
  refine ⟨world, _, first, second, hhad, hhas, ?_, (hshards "tenant").1,
    hstored _ _ _ _ hhad, hstored _ _ _ _ hhas, (hshards "tenant").2⟩
  intro hsame
  cases (hapart _ _ _ _ _ _ _ hhad hhas hsame).1

end Decern.Postgres
