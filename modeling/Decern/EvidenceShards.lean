import Decern.EvidenceExport
import Decern.EvidenceRuns
import Decern.ShardedRuns
import Mathlib.Tactic

/-!
# Evidence along a shard's sections

Whatever calls several processes make, a shard changes by one section after
the other, each of which writes one record named after its process's key or
none.  Named records are attributed alike by every process, so the spans a
section judges its key by are the verifier's.
-/

namespace Decern

open Serde (Value)

variable {P : Platform}

/-! ## Sections -/

/-- A section on a shard: `append_revised` at the cursor, or
`critical_section` over the records. -/
inductive ShardSection (P : Platform) where
  | atHead (ledger : ShardedLedger P) (entry : Entry)
      (revise : Entry → Except LedgerError Entry)
  | reading (ledger : ShardedLedger P)
      (decide : List Value → Except LedgerError (Option Entry))

namespace ShardSection

def ledger : ShardSection P → ShardedLedger P
  | .atHead ledger _ _ => ledger
  | .reading ledger _ => ledger

/-- The record a section writes, if any, and the shard it leaves. -/
def enter (name : String) (shard : Shard) :
    ShardSection P → Except LedgerError (Option RecordOut) × Shard
  | .atHead ledger entry revise =>
      match ledger.appendAtHead name shard entry revise with
      | none => (.ok none, shard)
      | some (outcome, next) => (outcome.map some, next)
  | .reading ledger decide =>
      match ledger.criticalSection name shard fun records =>
          (decide records).map fun entry => (entry, ()) with
      | (outcome, next) => (outcome.map Prod.fst, next)

def next (name : String) (shard : Shard) (visit : ShardSection P) : Shard :=
  (visit.enter name shard).2

/-- A record it writes is of such an entry, and its key is in the ring. -/
def AppendsTo (among : Entry → Prop) (name : String)
    (ring : List VerifyingKey) (shard : Shard) (visit : ShardSection P) :
    Prop :=
  ∀ record, (visit.enter name shard).1 = .ok (some record) →
    among record.entry ∧ P.verifyingKey visit.ledger.key ∈ ring

/-- A record it writes has its line within the limit, and its key in the
ring. -/
def ExportsTo (name : String) (ring : List VerifyingKey) (shard : Shard)
    (visit : ShardSection P) : Prop :=
  visit.AppendsTo Entry.LineWithinLimit name ring shard

/-- A section writes nothing, or seals an entry under the spans it judged its
key by. -/
theorem enter_cases (name : String) (shard : Shard)
    (visit : ShardSection P) :
    visit.next name shard = shard ∨
      ∃ spans entry record,
        visit.ledger.sealEntry name shard spans entry =
            .ok (record, visit.next name shard) ∧
          (visit.enter name shard).1 = .ok (some record) ∧
          (currentSpans shard.cursor = some spans ∨
            ∃ parsed, shard.lines.mapM (parseValue P) = some parsed ∧
              spans = spansOf P parsed visit.ledger.verifiers) := by
  cases visit with
  | atHead ledger entry revise =>
      unfold next enter ShardedLedger.appendAtHead ShardSection.ledger
      cases hspans : currentSpans shard.cursor with
      | none => exact Or.inl rfl
      | some spans =>
          simp only [Option.map_some]
          unfold ShardedLedger.appendUnder
          cases revise entry with
          | error error => exact Or.inl rfl
          | ok revised =>
              simp only
              cases hsealed : ledger.sealEntry name shard spans revised with
              | error error => exact Or.inl rfl
              | ok result =>
                  exact Or.inr ⟨spans, revised, result.1, hsealed, rfl,
                    Or.inl rfl⟩
  | reading ledger decide =>
      unfold next enter ShardedLedger.criticalSection ShardSection.ledger
      cases hparsed : shard.lines.mapM (parseValue P) with
      | none => exact Or.inl rfl
      | some parsed =>
          simp only
          cases decide parsed with
          | error error => exact Or.inl rfl
          | ok decided =>
              cases decided with
              | none => exact Or.inl rfl
              | some entry =>
                  simp only [Except.map]
                  cases hsealed : ledger.sealEntry name shard
                      (spansOf P parsed ledger.verifiers) entry with
                  | error error => exact Or.inl rfl
                  | ok result =>
                      exact Or.inr ⟨_, entry, result.1, hsealed, rfl,
                        Or.inr ⟨parsed, rfl, rfl⟩⟩

end ShardSection

/-! ## Shards to export -/

/-- A verified shard of records to export. -/
structure Shard.Exports (P : Platform) (depth : ℕ) (ring : List VerifyingKey)
    (shard : Shard) (records : List RecordOut) : Prop where
  kept : ∃ keys state, shard.Kept P keys state
  current : (currentSpans shard.cursor).isSome
  lines : shard.lines = records.map (RecordOut.line P)
  named : NamesKeysOf ring records
  within : ∀ record ∈ records, record.entry.ReadsUnder depth

namespace Shard.Exports

variable {among : Entry → Prop} {depth : ℕ} {ring : List VerifyingKey}
  {shard : Shard} {records : List RecordOut}

theorem namesSigner (hexports : shard.Exports P depth ring records)
    (verifiers : List VerifyingKey) :
    ∀ line ∈ shard.lines, NamesSigner P verifiers line := by
  rw [hexports.lines]
  intro line hline
  obtain ⟨record, hrecord, rfl⟩ := List.mem_map.mp hline
  obtain ⟨key, _, hkid⟩ := hexports.named record hrecord
  exact namesSigner_line hkid verifiers

theorem next (hdepth : 1 ≤ depth)
    (hamong : ∀ entry, among entry → entry.ReadsUnder depth)
    (hexports : shard.Exports P depth ring records) (name : String)
    (visit : ShardSection P)
    (hvisit : visit.AppendsTo among name ring shard) :
    ∃ more, (visit.next name shard).Exports P depth ring (records ++ more) := by
  rcases visit.enter_cases name shard with
    hsame | ⟨spans, entry, record, hsealed, hrecord, hspans⟩
  · rw [hsame]
    exact ⟨[], by simpa using hexports⟩
  · obtain ⟨keys, state, hkept⟩ := hexports.kept
    obtain ⟨hmember, hkey⟩ := hvisit record hrecord
    have hwithin := hamong _ hmember
    have hstate : spans = state.signers := by
      rcases hspans with hcurrent | ⟨parsed, hparsed, rfl⟩
      · exact hkept.spans spans hcurrent
      · exact hkept.spansOf hparsed (hexports.namesSigner _)
    subst hstate
    obtain ⟨_, hout, hnext⟩ := ShardedLedger.sealEntry_eq_ok hsealed
    have hentry : entry.WithinLimit := by
      rw [hout] at hwithin
      exact Entry.withSeq_withinLimit.mp (hwithin.mono hdepth)
    refine ⟨[record], ⟨_, _, hkept.sealEntry hsealed hentry⟩, ?_, ?_, ?_, ?_⟩
    · rw [hnext]
      simp [Shard.commit, currentSpans, Option.filter]
    · rw [hnext, Shard.commit_lines, hexports.lines, List.map_append]
      rfl
    · intro other hother
      rcases List.mem_append.mp hother with hbefore | hlast
      · exact hexports.named other hbefore
      · rw [List.mem_singleton.mp hlast, hout]
        exact ⟨_, hkey, rfl⟩
    · intro other hother
      rcases List.mem_append.mp hother with hbefore | hlast
      · exact hexports.within other hbefore
      · rw [List.mem_singleton.mp hlast]
        exact hwithin

/-- Along a run the records only grow. -/
theorem run (hdepth : 1 ≤ depth)
    (hamong : ∀ entry, among entry → entry.ReadsUnder depth)
    (hexports : shard.Exports P depth ring records) {name : String}
    {sections : List (ShardSection P)}
    (hsections : StateRun.Admitted (ShardSection.next name)
      (fun shard visit => visit.AppendsTo among name ring shard) shard
      sections) :
    ∃ more, (StateRun.run (ShardSection.next name) shard sections).Exports P
      depth ring (records ++ more) := by
  have hstep : ∀ shard (visit : ShardSection P),
      (∃ more, shard.Exports P depth ring (records ++ more)) →
      visit.AppendsTo among name ring shard →
      ∃ more, (visit.next name shard).Exports P depth ring
        (records ++ more) := by
    rintro shard visit ⟨more, hmore⟩ hvisit
    obtain ⟨last, hlast⟩ := hmore.next hdepth hamong name visit hvisit
    exact ⟨more ++ last, by simpa using hlast⟩
  exact StateRun.run_preserves_admitted
    (fun shard visit => ShardSection.next name shard visit) hstep
    ⟨[], by simpa using hexports⟩ hsections

theorem empty : Shard.Exports P depth ring {} [] where
  kept := Shard.empty_sound
  current := rfl
  lines := rfl
  named := by simp [NamesKeysOf]
  within := by simp

theorem exportable (hexports : shard.Exports P depth ring records) :
    Exportable P depth ring records shard.lastHash := by
  obtain ⟨keys, state, hkept⟩ := hexports.kept
  refine ⟨⟨keys, state, hkept.keyed, ?_, hkept.lastHash.symm⟩,
    hexports.named, hexports.within⟩
  rw [← hexports.lines]
  exact hkept.accepted

theorem count (hexports : shard.Exports P depth ring records) :
    shard.nextSeq = records.length := by
  obtain ⟨keys, state, hkept⟩ := hexports.kept
  have hlength := congrArg List.length hexports.lines
  rw [Shard.lines, List.length_map, List.length_map] at hlength
  rw [hkept.nextSeq, hkept.counted, hlength]

end Shard.Exports

end Decern
