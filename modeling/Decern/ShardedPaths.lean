import Decern.ShardedRuns
import Mathlib.Tactic

/-!
# The two paths of a sharded append

An append judges its key by the cursor's spans or by the spans read from the
history.  Both give one result wherever the history reads as values whose
signers the process can attribute.
-/

namespace Decern

variable {P : Platform}

/-- A history some ring accepts, from a writer that kept no spans: the cursor
points at its head, and its spans are absent or behind. -/
structure Shard.Written (P : Platform) (shard : Shard)
    (ring : List VerifyingKey) (state : VerifyState) : Prop where
  keyed : ring ≠ []
  accepted : verifyState P ring none (shard.lines.map .ok) = .ok state
  counted : state.count = shard.records.length
  numbered : shard.records.map StoredRecord.seq =
    List.range shard.records.length
  nextSeq : shard.nextSeq = state.count
  lastHash : shard.lastHash = state.prev
  behind : ∀ cursor signers, shard.cursor = some cursor →
    cursor.signers = some signers → signers.through < cursor.nextSeq

theorem Shard.Written.kept {shard : Shard} {ring : List VerifyingKey}
    {state : VerifyState} (hwritten : shard.Written P ring state) :
    shard.Kept P ring state where
  keyed := hwritten.keyed
  accepted := hwritten.accepted
  counted := hwritten.counted
  numbered := hwritten.numbered
  nextSeq := hwritten.nextSeq
  lastHash := hwritten.lastHash
  spans := by
    intro spans hspans
    cases hcursor : shard.cursor with
    | none =>
        rw [hcursor] at hspans
        cases hspans
        have hzero : shard.records.length = 0 := by
          rw [← hwritten.counted, ← hwritten.nextSeq, Shard.nextSeq, hcursor]
          rfl
        have haccepted := hwritten.accepted
        rw [Shard.lines, List.length_eq_zero_iff.mp hzero] at haccepted
        cases haccepted
        rfl
    | some cursor =>
        rw [hcursor] at hspans
        obtain ⟨signers, hsigners, -⟩ := Option.map_eq_some_iff.mp hspans
        obtain ⟨hsome, hthrough⟩ := Option.filter_eq_some_iff.mp hsigners
        have hbehind := hwritten.behind cursor signers hcursor hsome
        rw [beq_iff_eq] at hthrough
        omega

theorem Shard.empty_written {ring : List VerifyingKey} (hring : ring ≠ []) :
    Shard.Written P {} ring {} where
  keyed := hring
  accepted := rfl
  counted := rfl
  numbered := rfl
  nextSeq := rfl
  lastHash := rfl
  behind := by
    intro cursor signers hcursor
    cases hcursor

/-- A line that reads as a value whose signer a ring knows. -/
def Attributed (P : Platform) (verifiers : List VerifyingKey)
    (line : String) : Prop :=
  ∃ value, parseValue P line = some value ∧
    (signerOf P value verifiers).isSome

theorem Attributed.attributes {verifiers : List VerifyingKey} {line : String}
    (hline : Attributed P verifiers line) : Attributes P verifiers line := by
  intro value hvalue
  obtain ⟨other, hother, hsigner⟩ := hline
  rw [hvalue] at hother
  cases hother
  exact hsigner

theorem mapM_parseValue_of_attributed {verifiers : List VerifyingKey}
    {lines : List String}
    (hlines : ∀ line ∈ lines, Attributed P verifiers line) :
    ∃ parsed, lines.mapM (parseValue P) = some parsed := by
  induction lines with
  | nil => exact ⟨[], rfl⟩
  | cons line rest ih =>
      obtain ⟨value, hvalue, -⟩ := hlines line (by simp)
      obtain ⟨parsed, hparsed⟩ := ih fun other hother =>
        hlines other (List.mem_cons_of_mem _ hother)
      exact ⟨value :: parsed, by
        rw [List.mapM_cons, hvalue, hparsed]
        rfl⟩

/-- On one verified shard with current spans, the cursor path and the history
path are one. -/
theorem appendThroughHistory_eq_appendAtHead (hone : P.OneSigner)
    {shard : Shard} (hsound : shard.Sound P) {ledger : ShardedLedger P}
    {name : String} {entry : Entry}
    {revise : Entry → Except LedgerError Entry}
    {fast : Except LedgerError RecordOut × Shard}
    (hattributed : ∀ line ∈ shard.lines, Attributed P ledger.verifiers line)
    (hfast : ledger.appendAtHead name shard entry revise = some fast) :
    ledger.appendThroughHistory name shard entry revise = fast := by
  obtain ⟨ring, state, hkept⟩ := hsound
  obtain ⟨spans, hspans, rfl⟩ := Option.map_eq_some_iff.mp hfast
  obtain ⟨parsed, hparsed⟩ := mapM_parseValue_of_attributed hattributed
  rw [ShardedLedger.appendThroughHistory_eq, hparsed]
  have hhistory := hkept.spansOf hparsed fun line hline =>
    (hattributed line hline).attributes.namesSigner hone
  simp only [hhistory, hkept.spans spans hspans]

/-- Over any run from accepted histories whose appends are within the limit
and whose readers of a history can attribute it, a process that can attribute
a shard's history appends to it alike on both paths, and either leaves a
history the verifier accepts. -/
theorem cursor_path_eq_history_path (hone : P.OneSigner)
    (start : ShardWorld P)
    (hstart : ∀ name, ∃ ring state,
      (start.shards name).Written P ring state)
    (operations : List (ShardOperation P))
    (hwithin : StateRun.Admitted ShardWorld.next
      (fun world operation => ShardOperation.Within world operation) start
      operations)
    (call : AppendCall P) (hcall : call.Within) :
    (∀ fast, call.ledger.appendAtHead call.shard
        ((start.after operations).shards call.shard) call.entry
        call.revise = some fast → fast.2.Verifies P) ∧
      ((∀ line ∈ ((start.after operations).shards call.shard).lines,
          Attributed P call.ledger.verifiers line) →
        (call.ledger.appendThroughHistory call.shard
          ((start.after operations).shards call.shard) call.entry
          call.revise).2.Verifies P ∧
        ∀ fast, call.ledger.appendAtHead call.shard
            ((start.after operations).shards call.shard) call.entry
            call.revise = some fast →
          call.ledger.appendThroughHistory call.shard
            ((start.after operations).shards call.shard) call.entry
            call.revise = fast) := by
  have hsound : (start.after operations).Sound :=
    ShardWorld.after_sound hone (fun name => by
      obtain ⟨ring, state, hwritten⟩ := hstart name
      exact ⟨ring, state, hwritten.kept⟩) hwithin
  constructor
  · intro fast hfast
    have hnext : fast.2.Sound P :=
      ShardedLedger.appendAtHead_sound (hsound call.shard) hfast hcall
    exact hnext.verifies hone
  · intro hattributed
    constructor
    · apply Shard.Sound.verifies hone
      exact ShardedLedger.appendThroughHistory_sound hone
        (hsound call.shard)
        (fun line hline => (hattributed line hline).attributes) hcall
    · intro fast hfast
      exact appendThroughHistory_eq_appendAtHead hone (hsound call.shard)
        hattributed hfast

end Decern
