import Decern.ShardedLedger
import Decern.StateRun
import Mathlib.Tactic

/-!
# Runs of a sharded ledger

Every section on a shard finds a verified chain and leaves one, as long as
the spans an append judges its key by are the verifier's.  Spans in a cursor
were computed by whichever process wrote it; spans read from the history are
the verifier's when the reading process can attribute every record.
-/

namespace Decern

open Serde (Value)

variable {P : Platform}

/-! ## The guard -/

/-- A key that may extend the spans is one the verifier admits after them. -/
theorem admits_of_mayExtend {spans : List KeySpan} {kid : String}
    {verifiers : List VerifyingKey} {name : String}
    (hok : mayExtend spans kid verifiers name = .ok ()) :
    Succession.Admits spans kid := by
  unfold mayExtend at hok
  split at hok
  case h_1 hnone =>
    rw [List.getLast?_eq_none_iff] at hnone
    subst hnone
    exact Or.inr rfl
  case h_2 last hlast =>
    split at hok
    case isTrue => cases hok
    case isFalse =>
      split at hok
      case isTrue hkid =>
        left
        rw [Succession.current, hlast, Option.map_some, hkid]
      case isFalse =>
        split at hok
        case h_1 => cases hok
        case h_2 hnone =>
          right
          apply Succession.successor_eq_none_of_notMem
          exact LineText.notMem_of_rposition_eq_none kid hnone

namespace ShardedLedger

/-- What a sealed entry is and where it goes. -/
theorem sealEntry_eq_ok {ledger : ShardedLedger P} {name : String}
    {shard next : Shard} {spans : List KeySpan} {entry : Entry}
    {record : RecordOut}
    (hok : ledger.sealEntry name shard spans entry = .ok (record, next)) :
    Succession.Admits spans ledger.kid ∧
      record = sealRecord P ledger.key (entry.withSeq shard.nextSeq)
        shard.lastHash ∧
      next = shard.commit
        { nextSeq := shard.nextSeq + 1
          lastHash := record.hash
          signers := some
            { through := shard.nextSeq + 1
              spans := Succession.extend spans ledger.kid shard.nextSeq } }
        (record.line P) := by
  unfold sealEntry at hok
  cases hmay : mayExtend spans ledger.kid ledger.verifiers name with
  | error error =>
      rw [hmay] at hok
      cases hok
  | ok _ =>
      rw [hmay] at hok
      cases hok
      exact ⟨admits_of_mayExtend hmay, rfl, rfl⟩

end ShardedLedger

/-! ## Counting records -/

section Counting

variable {ring : List VerifyingKey} {window : Option ReadWindow}
  {state next : VerifyState}

theorem verifyRecord_count {line : String}
    (hok : verifyRecord P ring window state line = .ok next) :
    next.count = state.count + 1 := by
  obtain ⟨record, signers, records, -, -, rfl⟩ :=
    (verifyRecord_eq_ok_iff P _ _ _ _ _).mp hok
  rfl

theorem not_blank_of_verifyRecord {line : String}
    (hok : verifyRecord P ring window state line = .ok next) :
    RustText.isBlank line = false := by
  obtain ⟨record, signers, records, haccepted, -, -⟩ :=
    (verifyRecord_eq_ok_iff P _ _ _ _ _).mp hok
  exact not_blank_of_readRecord P haccepted.read

theorem verifyLine_of_verifyRecord {line : String}
    (hok : verifyRecord P ring window state line = .ok next) :
    verifyLine P ring window state (.ok line) = .ok next := by
  rw [verifyLine_of_not_blank P _ _ _ (not_blank_of_verifyRecord hok), hok]

theorem verifyLine_count_le {line : Except LedgerError String}
    (hok : verifyLine P ring window state line = .ok next) :
    next.count ≤ state.count + 1 := by
  cases line with
  | error error => cases hok
  | ok line =>
      unfold verifyLine at hok
      simp only at hok
      split at hok
      case isTrue =>
        cases hok
        exact Nat.le_succ _
      case isFalse => exact (verifyRecord_count hok).le

theorem verifyFrom_count_le {lines : List (Except LedgerError String)}
    (hok : verifyFrom P ring window state lines = .ok next) :
    next.count ≤ state.count + lines.length := by
  induction lines generalizing state with
  | nil =>
      cases hok
      exact Nat.le_refl _
  | cons line rest ih =>
      rw [verifyFrom_cons] at hok
      cases hline : verifyLine P ring window state line with
      | error error =>
          rw [hline] at hok
          cases hok
      | ok after =>
          rw [hline] at hok
          have hhead := verifyLine_count_le hline
          have htail := ih hok
          rw [List.length_cons]
          omega

/-- Where every line counts, the first of them is a record. -/
theorem verifyFrom_cons_record {line : String} {rest : List String}
    (hok : verifyFrom P ring window state ((line :: rest).map .ok) =
      .ok next)
    (hcount : next.count = state.count + (line :: rest).length) :
    ∃ after, verifyRecord P ring window state line = .ok after ∧
      verifyFrom P ring window after (rest.map .ok) = .ok next ∧
      next.count = after.count + rest.length := by
  rw [List.map_cons, verifyFrom_cons] at hok
  rw [List.length_cons] at hcount
  cases hline : verifyLine P ring window state (.ok line) with
  | error error =>
      rw [hline] at hok
      cases hok
  | ok after =>
      rw [hline] at hok
      have htail := verifyFrom_count_le hok
      rw [List.length_map] at htail
      unfold verifyLine at hline
      simp only at hline
      split at hline
      case isTrue =>
        cases hline
        exact absurd htail (by simp only; omega)
      case isFalse =>
        have hhead := verifyRecord_count hline
        exact ⟨after, hline, hok, by omega⟩

/-- An accepted record is signed by a key of the ring. -/
theorem lineSignedBy_of_verifyRecord {line : String} (hring : ring ≠ [])
    (hok : verifyRecord P ring window state line = .ok next) :
    ∃ key ∈ ring, LineSignedBy P line key := by
  obtain ⟨record, signers, records, haccepted, -, -⟩ :=
    (verifyRecord_eq_ok_iff P _ _ _ _ _).mp hok
  obtain ⟨key, hkey, hsigned, -, -⟩ :=
    checkSignature_eq_ok P hring haccepted.signature
  exact ⟨key, hkey, record, haccepted.read, hsigned⟩

theorem holdsSigners_of_verifyFrom {lines : List String} (hring : ring ≠ [])
    (hok : verifyFrom P ring window state (lines.map .ok) = .ok next)
    (hcount : next.count = state.count + lines.length) :
    HoldsSigners P ring lines := by
  induction lines generalizing state with
  | nil =>
      intro line hline
      cases hline
  | cons line rest ih =>
      obtain ⟨after, hline, hrest, hcountRest⟩ :=
        verifyFrom_cons_record hok hcount
      intro other hother
      rcases List.mem_cons.mp hother with rfl | hmem
      · exact lineSignedBy_of_verifyRecord hring hline
      · exact ih hrest hcountRest other hmem

end Counting

/-! ## Spans read from the history -/

/-- A ring attributes a stored line when its value names a key or is signed
by one of the ring's. -/
def Attributes (P : Platform) (verifiers : List VerifyingKey)
    (line : String) : Prop :=
  ∀ value, parseValue P line = some value →
    (signerOf P value verifiers).isSome

/-- A ring that attributes an accepted line to whoever signed it. -/
def NamesSigner (P : Platform) (verifiers : List VerifyingKey)
    (line : String) : Prop :=
  ∀ keys state record signers value key,
    Accepted P keys state line record signers →
    parseValue P line = some value → SignedBy P record key →
    signerOf P value verifiers = some (keyFingerprint key)

theorem Attributes.namesSigner (hone : P.OneSigner)
    {verifiers : List VerifyingKey} {line : String}
    (hline : Attributes P verifiers line) : NamesSigner P verifiers line := by
  intro keys state record signers value key haccepted hvalue hsigned
  obtain ⟨signer, hsigner⟩ := Option.isSome_iff_exists.mp
    (hline value hvalue)
  rw [hsigner, signerOf_eq P hone haccepted hvalue hsigned hsigner]

/-- A record that names its key is attributed to it by any ring. -/
theorem namesSigner_line {record : RecordOut} {kid : String}
    (hkid : record.kid = some kid) (verifiers : List VerifyingKey) :
    NamesSigner P verifiers (record.line P) := by
  intro keys state read signers value key haccepted hvalue hsigned
  have hread := readRecord_line P record
  rw [haccepted.read] at hread
  have hnamed : read.kid = some kid := by
    rw [Except.ok.inj hread]
    exact hkid
  rw [signerOf_line P record hkid hvalue, hsigned.named kid hnamed]

theorem foldl_extend_eq
    {ring verifiers : List VerifyingKey} {window : Option ReadWindow}
    {state final : VerifyState} {lines : List String} {parsed : List Value}
    (hring : ring ≠ [])
    (hok : verifyFrom P ring window state (lines.map .ok) = .ok final)
    (hcount : final.count = state.count + lines.length)
    (hparsed : lines.mapM (parseValue P) = some parsed)
    (hnames : ∀ line ∈ lines, NamesSigner P verifiers line) :
    (parsed.zipIdx state.count).foldl
        (fun spans record => Succession.extend spans
          ((signerOf P record.1 verifiers).getD "") record.2)
        state.signers =
      final.signers := by
  induction lines generalizing state parsed with
  | nil =>
      cases hparsed
      cases hok
      rfl
  | cons line rest ih =>
      obtain ⟨after, hline, hrest, hcountRest⟩ :=
        verifyFrom_cons_record hok hcount
      rw [List.mapM_cons] at hparsed
      simp only [Option.bind_eq_bind, Option.bind_eq_some_iff] at hparsed
      obtain ⟨value, hvalue, others, hothers, hcons⟩ := hparsed
      cases hcons
      obtain ⟨record, signers, records, haccepted, -, rfl⟩ :=
        (verifyRecord_eq_ok_iff P _ _ _ _ _).mp hline
      obtain ⟨key, -, hsigned, -, hsigners⟩ :=
        checkSignature_eq_ok P hring haccepted.signature
      have hsigner := hnames line (by simp) _ _ _ _ value key haccepted hvalue
        hsigned
      rw [List.zipIdx_cons, List.foldl_cons, hsigner, Option.getD_some,
        ← hsigners]
      exact ih hrest hcountRest hothers fun other hother =>
        hnames other (List.mem_cons_of_mem _ hother)

/-! ## A verified shard -/

/-- A shard the verifier accepts under a ring, numbered from zero, whose
cursor points at its head and carries the verifier's spans if it carries
current ones. -/
structure Shard.Kept (P : Platform) (shard : Shard)
    (ring : List VerifyingKey) (state : VerifyState) : Prop where
  keyed : ring ≠ []
  accepted : verifyState P ring none (shard.lines.map .ok) = .ok state
  counted : state.count = shard.records.length
  numbered : shard.records.map StoredRecord.seq =
    List.range shard.records.length
  nextSeq : shard.nextSeq = state.count
  lastHash : shard.lastHash = state.prev
  spans : ∀ spans, currentSpans shard.cursor = some spans →
    spans = state.signers

/-- A shard some ring accepts. -/
def Shard.Sound (P : Platform) (shard : Shard) : Prop :=
  ∃ ring state, shard.Kept P ring state

theorem Shard.empty_sound : Shard.Sound P {} :=
  ⟨[Vector.replicate 32 0], {},
    { keyed := by simp
      accepted := rfl
      counted := rfl
      numbered := rfl
      nextSeq := rfl
      lastHash := rfl
      spans := by
        intro spans hspans
        cases hspans
        rfl }⟩

namespace Shard

variable {shard : Shard} {ring : List VerifyingKey} {state : VerifyState}

@[simp] theorem commit_lines (cursor : HeadCursor) (line : String) :
    (shard.commit cursor line).lines = shard.lines ++ [line] := by
  simp [commit, lines]

/-- One more record the verifier accepts. -/
theorem Kept.commit (hkept : shard.Kept P ring state) {line : String}
    {more : List VerifyingKey} {next : VerifyState}
    {signers : Option ShardSigners}
    (hnext : verifyRecord P (ring ++ more) none state line = .ok next)
    (hspans : ∀ found, signers = some found →
      found.through = shard.nextSeq + 1 → found.spans = next.signers) :
    (shard.commit
      { nextSeq := shard.nextSeq + 1
        lastHash := next.prev
        signers := signers } line).Kept P (ring ++ more) next := by
  have hcount : next.count = state.count + 1 :=
    verifyRecord_count hnext
  have hlength : shard.nextSeq = shard.records.length :=
    hkept.nextSeq.trans hkept.counted
  constructor
  case keyed => simp [hkept.keyed]
  case accepted =>
    rw [commit_lines, List.map_append, verifyState_append,
      verifyState_append_keys P hkept.keyed hkept.accepted, List.map_singleton]
    simp only [bind, Except.bind, verifyFrom_singleton]
    exact verifyLine_of_verifyRecord hnext
  case counted =>
    rw [hcount, hkept.counted, Shard.commit, List.length_append]
    rfl
  case numbered =>
    simp only [Shard.commit, List.map_append, List.length_append,
      List.map_singleton, List.length_singleton, List.range_succ,
      hkept.numbered, hlength, Nat.add_sub_cancel]
  case nextSeq =>
    rw [hcount, ← hkept.nextSeq]
    rfl
  case lastHash => rfl
  case spans =>
    intro spans hcurrent
    obtain ⟨found, hfound, rfl⟩ := Option.map_eq_some_iff.mp hcurrent
    obtain ⟨hsome, hthrough⟩ := Option.filter_eq_some_iff.mp hfound
    exact hspans found hsome (by simpa using hthrough)

/-- Spans read from the history by a process that attributes every record
to its signer are the verifier's. -/
theorem Kept.spansOf (hkept : shard.Kept P ring state)
    {verifiers : List VerifyingKey} {parsed : List Value}
    (hparsed : shard.lines.mapM (parseValue P) = some parsed)
    (hnames : ∀ line ∈ shard.lines, NamesSigner P verifiers line) :
    Decern.spansOf P parsed verifiers = state.signers := by
  apply foldl_extend_eq hkept.keyed hkept.accepted _ hparsed hnames
  rw [hkept.counted, lines, List.length_map]
  exact (Nat.zero_add _).symm

/-- A record sealed onto a verified shard under the verifier's spans. -/
theorem Kept.sealEntry (hkept : shard.Kept P ring state)
    {ledger : ShardedLedger P} {name : String} {entry : Entry}
    {record : RecordOut} {next : Shard}
    (hok : ledger.sealEntry name shard state.signers entry =
      .ok (record, next))
    (hentry : entry.WithinLimit) :
    next.Kept P (ring ++ [P.verifyingKey ledger.key])
      (state.afterSealed P ledger.key (entry.withSeq state.count)) := by
  obtain ⟨hadmits, hrecord, hnext⟩ := ShardedLedger.sealEntry_eq_ok hok
  rw [hkept.nextSeq, hkept.lastHash] at hrecord
  have hmem : P.verifyingKey ledger.key ∈
      ring ++ [P.verifyingKey ledger.key] := by simp
  have hline := verifyLine_sealRecord P hmem hadmits
    (Entry.withSeq_withinLimit.mpr hentry) rfl
  rw [verifyLine_of_not_blank P _ _ _ (line_not_blank P _), ← hrecord]
    at hline
  rw [hnext]
  have hhash : record.hash = (state.afterSealed P ledger.key
      (entry.withSeq state.count)).prev := by
    rw [hrecord]
    rfl
  rw [hhash]
  apply hkept.commit hline
  intro found hfound _
  cases hfound
  rw [hkept.nextSeq]
  rfl

end Shard

/-! ## What the verifier says of a shard -/

/-- One chain numbered from zero, accepted under every ring that holds the
keys that signed it. -/
def Shard.Verifies (P : Platform) (shard : Shard) : Prop :=
  shard.records.map StoredRecord.seq = List.range shard.records.length ∧
    ∀ ring, HoldsSigners P ring shard.lines →
      ∃ report, verifyStoredRecords P shard.records ring = .ok report ∧
        report.entries = shard.records.length

theorem verifyStoredRecords_eq_ok_iff (records : List StoredRecord)
    (ring : List VerifyingKey) (report : VerifyReport) :
    verifyStoredRecords P records ring = .ok report ↔
      ∃ state, verifyState P ring none
          ((records.map StoredRecord.recordJson).map .ok) = .ok state ∧
        report = state.report ring := by
  have hlines : (records.map StoredRecord.recordJson).map Except.ok =
      records.map fun record =>
        (.ok record.recordJson : Except LedgerError String) := by
    rw [List.map_map]
    rfl
  unfold verifyStoredRecords verifyLines
  rw [hlines]
  cases verifyState P ring none (records.map fun record =>
      .ok record.recordJson) with
  | error error => simp [Except.map]
  | ok state => simp [Except.map, eq_comm]

theorem Shard.Sound.verifies (hone : P.OneSigner) {shard : Shard}
    (hsound : shard.Sound P) : shard.Verifies P := by
  obtain ⟨keys, state, hkept⟩ := hsound
  refine ⟨hkept.numbered, fun ring hring => ?_⟩
  have haccepted : verifyState P ring none (shard.lines.map .ok) =
      .ok state :=
    verifyFrom_ring P hone hkept.keyed hkept.accepted hring
  exact ⟨state.report ring,
    (verifyStoredRecords_eq_ok_iff _ _ _).mpr ⟨state, haccepted, rfl⟩,
    hkept.counted⟩

/-! ## One section -/

/-- The record an append returns is the one it stored, at its number; an
append that fails stores nothing. -/
def Stores (P : Platform) (shard next : Shard) :
    Except LedgerError RecordOut → Prop
  | .ok record => ∃ cursor, next = shard.commit cursor (record.line P) ∧
      cursor.nextSeq = record.entry.seq + 1 ∧
      record.entry.seq = shard.records.length
  | .error _ => next = shard

namespace ShardedLedger

variable {ledger : ShardedLedger P} {name : String} {shard : Shard}
  {entry : Entry} {revise : Entry → Except LedgerError Entry}

theorem appendUnder_stores {ring : List VerifyingKey} {state : VerifyState}
    (hkept : shard.Kept P ring state) (spans : List KeySpan) :
    Stores P shard (ledger.appendUnder name shard spans entry revise).2
      (ledger.appendUnder name shard spans entry revise).1 := by
  unfold appendUnder
  split
  case h_1 => rfl
  case h_2 revised _ =>
    split
    case h_1 => rfl
    case h_2 record next hsealed =>
      obtain ⟨-, hrecord, hnext⟩ := sealEntry_eq_ok hsealed
      refine ⟨_, hnext, ?_, ?_⟩
      · rw [hrecord]
        rfl
      · rw [hrecord, ← hkept.counted, ← hkept.nextSeq]
        rfl

/-- An append judged by the verifier's spans leaves a verified shard. -/
theorem appendUnder_sound {ring : List VerifyingKey} {state : VerifyState}
    (hkept : shard.Kept P ring state)
    (hwithin : ∀ revised, revise entry = .ok revised → revised.WithinLimit) :
    (ledger.appendUnder name shard state.signers entry revise).2.Sound
      P := by
  unfold appendUnder
  split
  case h_1 => exact ⟨ring, state, hkept⟩
  case h_2 revised hrevised =>
    split
    case h_1 => exact ⟨ring, state, hkept⟩
    case h_2 record next hsealed =>
      exact ⟨_, _, hkept.sealEntry hsealed (hwithin revised hrevised)⟩

/-- Through the history, an append is judged by the spans read from it. -/
theorem appendThroughHistory_eq :
    ledger.appendThroughHistory name shard entry revise =
      match shard.lines.mapM (parseValue P) with
      | none => (.error (.serde (P.serdeMessage .unreadable)), shard)
      | some parsed => ledger.appendUnder name shard
          (spansOf P parsed ledger.verifiers) entry revise := by
  unfold appendThroughHistory criticalSection appendUnder
  cases shard.lines.mapM (parseValue P) with
  | none => rfl
  | some parsed =>
      cases revise entry with
      | error error => rfl
      | ok revised =>
          simp only [Except.map]
          cases ledger.sealEntry name shard
              (spansOf P parsed ledger.verifiers) revised with
          | error error => rfl
          | ok result => rfl

theorem appendAtHead_sound (hsound : shard.Sound P)
    {outcome : Except LedgerError RecordOut} {next : Shard}
    (hhead : ledger.appendAtHead name shard entry revise =
      some (outcome, next))
    (hwithin : ∀ revised, revise entry = .ok revised → revised.WithinLimit) :
    next.Sound P := by
  obtain ⟨ring, state, hkept⟩ := hsound
  obtain ⟨spans, hspans, happend⟩ := Option.map_eq_some_iff.mp hhead
  have hstate := hkept.spans spans hspans
  subst hstate
  have hnext : (ledger.appendUnder name shard state.signers entry
      revise).2.Sound P := appendUnder_sound hkept hwithin
  rw [happend] at hnext
  exact hnext

theorem appendThroughHistory_sound (hone : P.OneSigner)
    (hsound : shard.Sound P)
    (hattributes : ∀ line ∈ shard.lines,
      Attributes P ledger.verifiers line)
    (hwithin : ∀ revised, revise entry = .ok revised → revised.WithinLimit) :
    (ledger.appendThroughHistory name shard entry revise).2.Sound P := by
  rw [appendThroughHistory_eq]
  split
  case h_1 => exact hsound
  case h_2 parsed hparsed =>
    obtain ⟨ring, state, hkept⟩ := hsound
    rw [hkept.spansOf hparsed fun line hline =>
      (hattributes line hline).namesSigner hone]
    exact appendUnder_sound hkept hwithin

end ShardedLedger

/-- A writer that keeps no spans leaves the ones of the cursor absent or
behind. -/
theorem Shard.afterUnaware_sound {shard next : Shard} {line : String}
    {ring : List VerifyingKey} {signers : Option ShardSigners}
    (hone : P.OneSigner) (hsound : shard.Sound P)
    (hnext : shard.afterUnaware P line ring signers = some next) :
    next.Sound P := by
  obtain ⟨keys, state, hkept⟩ := hsound
  unfold Shard.afterUnaware at hnext
  split at hnext
  case isTrue => cases hnext
  case isFalse hbehind =>
    rw [not_or] at hbehind
    split at hnext
    case h_1 => cases hnext
    case h_2 verified hverified =>
      split at hnext
      case h_1 => cases hnext
      case h_2 after hafter =>
        cases hnext
        have hring : ring ≠ [] := by simpa using hbehind.1
        have hholds : HoldsSigners P keys shard.lines := by
          apply holdsSigners_of_verifyFrom hkept.keyed hkept.accepted
          rw [hkept.counted, Shard.lines, List.length_map]
          exact (Nat.zero_add _).symm
        -- the writer's ring and the kept one give one account
        have hsame : verified = state := by
          have hagain := verifyFrom_ring P hone hring hverified hholds
          have heq := hagain.symm.trans hkept.accepted
          cases heq
          rfl
        subst hsame
        obtain ⟨key, hkey, hsigned⟩ :=
          lineSignedBy_of_verifyRecord hring hafter
        have hmore := verifyRecord_ring P hone hring hafter
          ⟨key, List.mem_append_right keys hkey, hsigned⟩
        refine ⟨_, _, hkept.commit hmore ?_⟩
        intro found hfound hthrough
        exfalso
        apply hbehind.2
        rw [hfound]
        simp [hthrough]

/-! ## Runs -/

/-- A call whose entry, as it is sealed, is within the verifier's limit. -/
def AppendCall.Within (call : AppendCall P) : Prop :=
  ∀ revised, call.revise call.entry = .ok revised → revised.WithinLimit

/-- Appended entries are within the limit, and whoever reads the history can
attribute every record in it. -/
def ShardOperation.Within (world : ShardWorld P) :
    ShardOperation P → Prop
  | .append call => call.Within
  | .readHistory index => ∀ call, world.waiting[index]? = some call →
      call.Within ∧ ∀ line ∈ (world.shards call.shard).lines,
        Attributes P call.ledger.verifiers line
  | .stop _ => True
  | .unaware .. => True

namespace ShardWorld

def Sound (world : ShardWorld P) : Prop :=
  ∀ name, (world.shards name).Sound P

/-- No shard has been written to. -/
def empty : ShardWorld P where
  shards _ := {}

def after (world : ShardWorld P) (operations : List (ShardOperation P)) :
    ShardWorld P :=
  StateRun.run next world operations

theorem after_append (world : ShardWorld P)
    (left right : List (ShardOperation P)) :
    world.after (left ++ right) = (world.after left).after right :=
  StateRun.run_append _ _ _ _

theorem write_sound {world : ShardWorld P} (hsound : world.Sound)
    {name : String} {shard : Shard} (hshard : shard.Sound P) :
    (world.write name shard).Sound := by
  intro other
  by_cases hother : other = name
  · subst hother
    simpa [write] using hshard
  · simpa [write, hother] using hsound other

theorem next_sound (hone : P.OneSigner) (world : ShardWorld P)
    (operation : ShardOperation P) (hsound : world.Sound)
    (hwithin : operation.Within world) : (world.next operation).Sound := by
  cases operation with
  | append call =>
      unfold next step
      simp only
      split
      case h_1 outcome shard hhead =>
        apply write_sound hsound
        exact ShardedLedger.appendAtHead_sound (hsound call.shard) hhead
          hwithin
      case h_2 => exact hsound
  | readHistory index =>
      unfold next step
      simp only
      split
      case h_1 => exact hsound
      case h_2 call hcall =>
        obtain ⟨hentry, hattributes⟩ := hwithin call hcall
        exact write_sound hsound
          (ShardedLedger.appendThroughHistory_sound hone (hsound call.shard)
            hattributes hentry)
  | stop index => exact hsound
  | unaware name line ring signers =>
      unfold next step
      simp only
      split
      case h_1 shard hshard =>
        exact write_sound hsound
          (Shard.afterUnaware_sound hone (hsound name) hshard)
      case h_2 => exact hsound

theorem after_sound (hone : P.OneSigner) {world : ShardWorld P}
    (hsound : world.Sound) {operations : List (ShardOperation P)}
    (hwithin : StateRun.Admitted next
      (fun world operation => ShardOperation.Within world operation) world
      operations) :
    (world.after operations).Sound :=
  StateRun.run_preserves_admitted next (next_sound hone) hsound hwithin

/-- What a section of an append does to the shards: nothing unless it returns
a record, which it then has stored. -/
def Answered (world after : ShardWorld P) (call : AppendCall P) :
    Option (Except LedgerError RecordOut) → Prop
  | none => after.shards = world.shards
  | some outcome => (∀ name, name ≠ call.shard →
        after.shards name = world.shards name) ∧
      Stores P (world.shards call.shard) (after.shards call.shard) outcome

theorem step_append_answered {world : ShardWorld P} (hsound : world.Sound)
    (call : AppendCall P) :
    world.Answered (world.step (.append call)).1 call
      (world.step (.append call)).2 := by
  obtain ⟨ring, state, hkept⟩ := hsound call.shard
  unfold step
  simp only
  split
  case h_1 outcome shard hhead =>
    obtain ⟨spans, -, happend⟩ := Option.map_eq_some_iff.mp hhead
    have hstores : Stores P (world.shards call.shard)
        (call.ledger.appendUnder call.shard (world.shards call.shard) spans
          call.entry call.revise).2
        (call.ledger.appendUnder call.shard (world.shards call.shard) spans
          call.entry call.revise).1 :=
      ShardedLedger.appendUnder_stores hkept spans
    rw [happend] at hstores
    constructor
    · intro name hname
      simp [write, hname]
    · simpa [write] using hstores
  case h_2 => rfl

theorem step_readHistory_answered {world : ShardWorld P}
    (hsound : world.Sound) {index : ℕ} {call : AppendCall P}
    (hcall : world.waiting[index]? = some call) :
    world.Answered (world.step (.readHistory index)).1 call
      (world.step (.readHistory index)).2 := by
  obtain ⟨ring, state, hkept⟩ := hsound call.shard
  unfold step
  simp only [hcall]
  constructor
  · intro name hname
    simp [write, hname]
  · simp only [write, Function.update_self]
    rw [ShardedLedger.appendThroughHistory_eq]
    split
    case h_1 => rfl
    case h_2 parsed hparsed =>
      exact ShardedLedger.appendUnder_stores hkept _

end ShardWorld

/-- Over any run whose appends are within the limit and whose readers of a
history can attribute it, no shard forks or stops verifying, and an append
stores the record it returns and nothing when it fails. -/
theorem sharded_append_safety (hone : P.OneSigner)
    (operations : List (ShardOperation P))
    (hwithin : StateRun.Admitted ShardWorld.next
      (fun world operation => ShardOperation.Within world operation)
      ShardWorld.empty operations) :
    (∀ name, (((ShardWorld.empty (P := P)).after operations).shards
        name).Verifies P) ∧
      (∀ call, (ShardWorld.empty.after operations).Answered
        ((ShardWorld.empty.after operations).step (.append call)).1 call
        ((ShardWorld.empty.after operations).step (.append call)).2) ∧
      ∀ index call,
        (ShardWorld.empty.after operations).waiting[index]? = some call →
        (ShardWorld.empty.after operations).Answered
          ((ShardWorld.empty.after operations).step (.readHistory index)).1
          call
          ((ShardWorld.empty.after operations).step
            (.readHistory index)).2 := by
  have hsound := ShardWorld.after_sound hone
    (fun _ => Shard.empty_sound) hwithin
  exact ⟨fun name => (hsound name).verifies hone,
    fun call => ShardWorld.step_append_answered hsound call,
    fun index call hcall => ShardWorld.step_readHistory_answered hsound hcall⟩

end Decern
