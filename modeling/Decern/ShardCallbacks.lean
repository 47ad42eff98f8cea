import Decern.EvidenceShards
import Decern.HeadStore
import Mathlib.Tactic

/-!
# Sections as the callbacks a store runs

A section on a shard is a callback of the store's: it is handed the cursor,
and the records when it asks for them, and answers with the cursor and the
line to write or with nothing.
-/

namespace Decern

open Serde (Value)

variable {P : Platform}

theorem ShardedLedger.sealEntry_handed (ledger : ShardedLedger P)
    (name : String) (shard : Shard) (records : List StoredRecord)
    (spans : List KeySpan) (entry : Entry) :
    (ledger.sealEntry name ⟨shard.cursor, records⟩ spans entry).map
        (fun result => (result.1, result.2.cursor)) =
      (ledger.sealEntry name shard spans entry).map
        (fun result => (result.1, result.2.cursor)) := by
  unfold sealEntry
  cases mayExtend spans ledger.kid ledger.verifiers name with
  | error error => rfl
  | ok _ => rfl

namespace ShardSection

/-- Whether it asks for the records. -/
def history : ShardSection P → Bool
  | .atHead _ _ _ => false
  | .reading _ _ => true

/-- What it is handed of a shard. -/
def handed (visit : ShardSection P) (shard : Shard) :
    Option HeadCursor × List StoredRecord :=
  (shard.cursor, if visit.history then shard.records else [])

/-- What it answers the store. -/
def callback (visit : ShardSection P) (name : String)
    (seen : Option HeadCursor × List StoredRecord) : ShardWrite :=
  match visit.enter name ⟨seen.1, seen.2⟩ with
  | (.ok (some record), next) =>
      .ok (next.cursor.map fun cursor => (cursor, record.line P))
  | _ => .ok none

/-- It may seal an entry. -/
def Offers : ShardSection P → Entry → Prop
  | .atHead _ entry revise, revised => revise entry = .ok revised
  | .reading _ decide, entry => ∃ records, decide records = .ok (some entry)

/-- The entries it may seal are within the verifier's limit. -/
def Within (visit : ShardSection P) : Prop :=
  ∀ entry, visit.Offers entry → entry.WithinLimit

variable (name : String) (shard : Shard) (visit : ShardSection P)

/-- A section does with what it is handed what it does with the shard. -/
theorem enter_handed :
    (visit.enter name ⟨(visit.handed shard).1, (visit.handed shard).2⟩).1 =
        (visit.enter name shard).1 ∧
      (visit.enter name
          ⟨(visit.handed shard).1, (visit.handed shard).2⟩).2.cursor =
        (visit.next name shard).cursor := by
  cases visit with
  | reading ledger decide => exact ⟨rfl, rfl⟩
  | atHead ledger entry revise =>
      unfold next enter handed ShardedLedger.appendAtHead
      cases currentSpans shard.cursor with
      | none => exact ⟨rfl, rfl⟩
      | some spans =>
          simp only [Option.map_some]
          unfold ShardedLedger.appendUnder
          cases revise entry with
          | error error => exact ⟨rfl, rfl⟩
          | ok revised =>
              have hseal := ledger.sealEntry_handed name shard [] spans
                revised
              simp only [ShardSection.history, Bool.false_eq_true, if_false]
              cases hhanded : ledger.sealEntry name ⟨shard.cursor, []⟩ spans
                  revised with
              | error error =>
                  cases hsealed : ledger.sealEntry name shard spans
                      revised with
                  | error other =>
                      rw [hhanded, hsealed] at hseal
                      cases hseal
                      exact ⟨rfl, rfl⟩
                  | ok result =>
                      rw [hhanded, hsealed] at hseal
                      cases hseal
              | ok handed =>
                  cases hsealed : ledger.sealEntry name shard spans
                      revised with
                  | error other =>
                      rw [hhanded, hsealed] at hseal
                      cases hseal
                  | ok result =>
                      rw [hhanded, hsealed] at hseal
                      rcases Prod.mk.inj (Except.ok.inj hseal) with
                        ⟨hrecord, hcursor⟩
                      simp only [hrecord, hcursor, and_self]

variable {name shard visit}

/-- A section that answers with a record sealed an entry it offers. -/
theorem sealed_of_enter {record : RecordOut}
    (henter : (visit.enter name shard).1 = .ok (some record)) :
    ∃ spans entry, visit.Offers entry ∧
      visit.ledger.sealEntry name shard spans entry =
        .ok (record, visit.next name shard) := by
  cases visit with
  | atHead ledger entry revise =>
      unfold enter ShardedLedger.appendAtHead at henter
      unfold next enter ShardedLedger.appendAtHead ShardSection.ledger
      cases hspans : currentSpans shard.cursor with
      | none =>
          rw [hspans] at henter
          cases henter
      | some spans =>
          simp only [hspans, Option.map_some] at henter ⊢
          unfold ShardedLedger.appendUnder at henter ⊢
          cases hrevise : revise entry with
          | error error =>
              simp only [hrevise] at henter
              cases henter
          | ok revised =>
              simp only [hrevise] at henter ⊢
              cases hsealed : ledger.sealEntry name shard spans revised with
              | error error =>
                  rw [hsealed] at henter
                  cases henter
              | ok result =>
                  rw [hsealed] at henter
                  cases henter
                  exact ⟨spans, revised, hrevise, hsealed⟩
  | reading ledger decide =>
      unfold enter ShardedLedger.criticalSection at henter
      unfold next enter ShardedLedger.criticalSection ShardSection.ledger
      cases hparsed : shard.lines.mapM (parseValue P) with
      | none =>
          rw [hparsed] at henter
          cases henter
      | some parsed =>
          simp only [hparsed] at henter ⊢
          cases hdecide : decide parsed with
          | error error =>
              simp only [hdecide] at henter
              cases henter
          | ok decided =>
              cases decided with
              | none =>
                  simp only [hdecide] at henter
                  cases henter
              | some entry =>
                  simp only [hdecide, Except.map] at henter ⊢
                  cases hsealed : ledger.sealEntry name shard
                      (spansOf P parsed ledger.verifiers) entry with
                  | error error =>
                      rw [hsealed] at henter
                      cases henter
                  | ok result =>
                      rw [hsealed] at henter
                      cases henter
                      exact ⟨_, entry, ⟨parsed, hdecide⟩, hsealed⟩

theorem Within.record (hwithin : visit.Within) {record : RecordOut}
    (henter : (visit.enter name shard).1 = .ok (some record)) :
    record.entry.WithinLimit := by
  rcases sealed_of_enter henter with ⟨spans, entry, hoffers, hsealed⟩
  rcases ShardedLedger.sealEntry_eq_ok hsealed with ⟨_, hrecord, _⟩
  rw [hrecord]
  exact Entry.withSeq_withinLimit.mpr (hwithin entry hoffers)

theorem callback_of_record {seen : Option HeadCursor × List StoredRecord}
    {record : RecordOut}
    (henter : (visit.enter name ⟨seen.1, seen.2⟩).1 = .ok (some record)) :
    visit.callback name seen = .ok
      ((visit.next name ⟨seen.1, seen.2⟩).cursor.map
        fun cursor => (cursor, record.line P)) := by
  unfold callback ShardSection.next
  rcases hout : visit.enter name ⟨seen.1, seen.2⟩ with ⟨outcome, next⟩
  rw [hout] at henter
  cases henter
  rfl

theorem callback_of_nothing {seen : Option HeadCursor × List StoredRecord}
    (henter : ∀ record,
      (visit.enter name ⟨seen.1, seen.2⟩).1 ≠ .ok (some record)) :
    visit.callback name seen = .ok none := by
  unfold callback
  split
  case h_1 record next hout =>
    exact absurd (congrArg Prod.fst hout) (henter record)
  case h_2 => rfl

/-- Its callback writes nothing and it leaves the shard, or it writes the
record it sealed and the cursor after it. -/
theorem callback_cases (visit : ShardSection P) (name : String)
    (shard : Shard) :
    (visit.callback name (visit.handed shard) = .ok none ∧
        visit.next name shard = shard ∧
        ∀ record, (visit.enter name shard).1 ≠ .ok (some record)) ∨
      ∃ record cursor,
        visit.callback name (visit.handed shard) =
            .ok (some (cursor, record.line P)) ∧
          (visit.enter name shard).1 = .ok (some record) ∧
          visit.next name shard = shard.commit cursor (record.line P) ∧
          cursor.nextSeq = shard.nextSeq + 1 ∧
          record.entry.seq = shard.nextSeq ∧
          ∃ kid, record.kid = some kid := by
  rcases visit.enter_handed name shard with ⟨houtcome, hcursor⟩
  by_cases hwrote : ∃ record, (visit.enter name shard).1 = .ok (some record)
  · right
    rcases hwrote with ⟨record, henter⟩
    rcases sealed_of_enter henter with ⟨spans, entry, _, hsealed⟩
    rcases ShardedLedger.sealEntry_eq_ok hsealed with ⟨_, hrecord, hnext⟩
    refine ⟨record, _, ?_, henter, hnext, rfl, ?_, ?_⟩
    · rw [callback_of_record (houtcome.trans henter), ShardSection.next,
        hcursor, hnext]
      rfl
    · rw [hrecord]
      rfl
    · rw [hrecord]
      exact ⟨_, rfl⟩
  · left
    have hnothing : ∀ record,
        (visit.enter name shard).1 ≠ .ok (some record) := by
      intro record henter
      exact hwrote ⟨record, henter⟩
    refine ⟨callback_of_nothing (by rwa [houtcome]), ?_, hnothing⟩
    rcases visit.enter_cases name shard with
      hsame | ⟨_, _, record, _, henter, _⟩
    · exact hsame
    · exact absurd henter (hnothing record)

/-! ## Along a run of sections -/

/-- A section only adds records. -/
theorem records_next (visit : ShardSection P) (name : String)
    (shard : Shard) :
    ∃ more, (visit.next name shard).records = shard.records ++ more := by
  rcases visit.callback_cases name shard with
    ⟨_, hsame, _⟩ | ⟨record, cursor, _, _, hnext, _⟩
  · exact ⟨[], by rw [hsame, List.append_nil]⟩
  · exact ⟨_, by rw [hnext]; rfl⟩

theorem records_run (name : String) (shard : Shard)
    (visits : List (ShardSection P)) :
    ∃ more, (StateRun.run (ShardSection.next name) shard visits).records =
      shard.records ++ more := by
  induction visits generalizing shard with
  | nil => exact ⟨[], by simp⟩
  | cons visit rest ih =>
      rcases visit.records_next name shard with ⟨first, hfirst⟩
      rcases ih (visit.next name shard) with ⟨more, hmore⟩
      refine ⟨first ++ more, ?_⟩
      rw [StateRun.run_cons, hmore, hfirst, List.append_assoc]

end ShardSection

/-- A verified shard whose records name their keys. -/
structure Shard.Named (P : Platform) (shard : Shard) : Prop where
  kept : shard.Sound P
  named : ∀ line ∈ shard.lines, ∃ record : RecordOut,
    line = record.line P ∧ ∃ kid, record.kid = some kid

namespace Shard.Named

variable {shard : Shard}

theorem empty : Shard.Named P {} where
  kept := Shard.empty_sound
  named := by simp [Shard.lines]

theorem numbered (hnamed : shard.Named P) :
    shard.records.map StoredRecord.seq = List.range shard.records.length := by
  rcases hnamed.kept with ⟨_, _, hkept⟩
  exact hkept.numbered

theorem nextSeq (hnamed : shard.Named P) :
    shard.nextSeq = shard.records.length := by
  rcases hnamed.kept with ⟨_, _, hkept⟩
  rw [hkept.nextSeq, hkept.counted]

/-- A section leaves one too. -/
theorem next (hnamed : shard.Named P) (name : String)
    {visit : ShardSection P} (hwithin : visit.Within) :
    (visit.next name shard).Named P := by
  rcases visit.enter_cases name shard with
    hsame | ⟨spans, entry, record, hsealed, hrecord, hspans⟩
  · rw [hsame]
    exact hnamed
  · rcases hnamed.kept with ⟨keys, state, hkept⟩
    have hsigners : ∀ line ∈ shard.lines,
        NamesSigner P visit.ledger.verifiers line := by
      intro line hline
      rcases hnamed.named line hline with ⟨found, rfl, kid, hkid⟩
      exact namesSigner_line hkid _
    have hstate : spans = state.signers := by
      rcases hspans with hcurrent | ⟨parsed, hparsed, rfl⟩
      · exact hkept.spans spans hcurrent
      · exact hkept.spansOf hparsed hsigners
    subst hstate
    rcases ShardedLedger.sealEntry_eq_ok hsealed with ⟨_, hout, hnext⟩
    have hentry : entry.WithinLimit := by
      have hlimit := hwithin.record hrecord
      rw [hout] at hlimit
      exact Entry.withSeq_withinLimit.mp hlimit
    constructor
    · exact ⟨_, _, hkept.sealEntry hsealed hentry⟩
    · intro line hline
      rw [hnext, Shard.commit_lines, List.mem_append,
        List.mem_singleton] at hline
      rcases hline with hbefore | rfl
      · exact hnamed.named line hbefore
      · refine ⟨record, rfl, ?_⟩
        rw [hout]
        exact ⟨_, rfl⟩

end Shard.Named

end Decern
