import Decern.SamplePlatform
import Decern.ShardedPaths
import Mathlib.Tactic

/-!
# A superseded key that returns

A record without a key name is attributed by its signature, and to nobody by
a process that does not hold its key.  Spans such a process writes into the
cursor hide the key, and a later append under it passes the guard that the
history, or the verifier, would refuse it by.
-/

namespace Decern

open Serde (Value)

variable {P : Platform}

/-! ## Records with and without a name -/

/-- A sealed record under another name, or none. -/
def sealedAs (P : Platform) (key : SigningKey) (entry : Entry)
    (prev : String) (kid : Option String) : RecordOut :=
  { sealRecord P key entry prev with kid }

theorem signedBy_sealedAs {key : SigningKey} {entry : Entry} {prev : String}
    {kid : Option String}
    (hkid : ∀ name, kid = some name →
      name = keyFingerprint (P.verifyingKey key)) :
    SignedBy P ((sealedAs P key entry prev kid).stored P)
      (P.verifyingKey key) := by
  refine ⟨hkid, P.sign key (chainHash P
    (ByteText.encode (entryJson P entry)) prev), ?_, P.verify_sign _ _⟩
  change (P.decodeBase64 (P.encodeBase64 _)).bind toSignature = _
  rw [P.decode_encode, Option.bind_some, toSignature_toList]

theorem signedBy_sealRecord (key : SigningKey) (entry : Entry)
    (prev : String) :
    SignedBy P ((sealRecord P key entry prev).stored P)
      (P.verifyingKey key) :=
  signedBy_sealedAs (P := P) (by simp [eq_comm])

theorem verifyRecord_sealedAs (hone : P.OneSigner)
    {ring : List VerifyingKey} {key : SigningKey} {state : VerifyState}
    {entry : Entry} {kid : Option String}
    (hkey : P.verifyingKey key ∈ ring)
    (hadmits : Succession.Admits state.signers
      (keyFingerprint (P.verifyingKey key)))
    (hentry : entry.WithinLimit) (hseq : entry.seq = state.count)
    (hkid : ∀ name, kid = some name →
      name = keyFingerprint (P.verifyingKey key)) :
    verifyRecord P ring none state
        ((sealedAs P key entry state.prev kid).line P) =
      .ok (state.afterSealed P key entry) := by
  rw [verifyRecord_eq_ok_iff]
  obtain ⟨read, hread, hreadSeq⟩ :=
    parseEntry_entryJson_of_withinLimit P hentry
  exact ⟨(sealedAs P key entry state.prev kid).stored P, _, state.records,
    { read := readRecord_line P _
      entry := ⟨read, hread, hreadSeq.trans hseq⟩
      prev := rfl
      hash := rfl
      signature := checkSignature_of_signedBy P hone hkey
        (signedBy_sealedAs hkid) hadmits }, rfl, rfl⟩

theorem keyFingerprint_ne_empty (key : VerifyingKey) :
    keyFingerprint key ≠ "" := by
  intro hempty
  have hlist : key.toList = [] := HexText.encode_injective hempty
  have hlength := congrArg List.length hlist
  simp at hlength

theorem signerOf_mem {value : Value} {verifiers : List VerifyingKey}
    {signer : String} (hkid : textMember value "kid" = none)
    (hsigner : signerOf P value verifiers = some signer) :
    ∃ key ∈ verifiers, signer = keyFingerprint key := by
  unfold signerOf at hsigner
  rw [hkid] at hsigner
  simp only [Option.bind_eq_some_iff, Option.map_eq_some_iff] at hsigner
  obtain ⟨_, _, _, _, _, _, _, _, key, hkey, rfl⟩ := hsigner
  exact ⟨key, List.mem_of_find?_eq_some hkey, rfl⟩

/-! ## The run -/

section Run

variable (P) (first second third : SigningKey) (entry : Entry)

/-- The verifier's state after records of the three keys in turn. -/
def stateOne : VerifyState :=
  VerifyState.afterSealed P {} first (entry.withSeq 0)

def stateTwo : VerifyState :=
  (stateOne P first entry).afterSealed P second (entry.withSeq 1)

def stateThree : VerifyState :=
  (stateTwo P first second entry).afterSealed P third (entry.withSeq 2)

def lineZero : String :=
  (sealedAs P first (entry.withSeq 0) genesis none).line P

def lineOne : String :=
  (sealRecord P second (entry.withSeq 1) (stateOne P first entry).prev).line P

def lineTwo : String :=
  (sealRecord P third (entry.withSeq 2)
    (stateTwo P first second entry).prev).line P

def lineThree : String :=
  (sealRecord P first (entry.withSeq 3)
    (stateThree P first second third entry).prev).line P

/-- The history of the first two keys, its first record without a name. -/
def unnamedHistory : Shard where
  cursor := some
    { nextSeq := 2
      lastHash := (stateTwo P first second entry).prev
      signers := none }
  records := [⟨0, lineZero P first entry⟩, ⟨1, lineOne P first second entry⟩]

end Run

/-- Three different keys. -/
structure Distinct (P : Platform) (first second third : SigningKey) :
    Prop where
  firstSecond : P.verifyingKey first ≠ P.verifyingKey second
  firstThird : P.verifyingKey first ≠ P.verifyingKey third
  secondThird : P.verifyingKey second ≠ P.verifyingKey third

section Steps

variable {first second third : SigningKey} {entry : Entry}

theorem stateOne_signers : (stateOne P first entry).signers =
    [⟨keyFingerprint (P.verifyingKey first), 0⟩] := rfl

theorem stateTwo_signers (hkeys : Distinct P first second third) :
    (stateTwo P first second entry).signers =
      [⟨keyFingerprint (P.verifyingKey first), 0⟩,
        ⟨keyFingerprint (P.verifyingKey second), 1⟩] := by
  have hne : keyFingerprint (P.verifyingKey first) ≠
      keyFingerprint (P.verifyingKey second) :=
    keyFingerprint_injective.ne hkeys.firstSecond
  change Succession.extend (stateOne P first entry).signers _ 1 = _
  rw [stateOne_signers]
  simp [Succession.extend, Succession.current, hne]

theorem stateThree_signers (hkeys : Distinct P first second third) :
    (stateThree P first second third entry).signers =
      [⟨keyFingerprint (P.verifyingKey first), 0⟩,
        ⟨keyFingerprint (P.verifyingKey second), 1⟩,
        ⟨keyFingerprint (P.verifyingKey third), 2⟩] := by
  have hne : keyFingerprint (P.verifyingKey second) ≠
      keyFingerprint (P.verifyingKey third) :=
    keyFingerprint_injective.ne hkeys.secondThird
  change Succession.extend (stateTwo P first second entry).signers _ 2 = _
  rw [stateTwo_signers hkeys]
  simp [Succession.extend, Succession.current, hne]

theorem admits_second (hkeys : Distinct P first second third) :
    Succession.Admits (stateOne P first entry).signers
      (keyFingerprint (P.verifyingKey second)) := by
  apply Or.inr
  apply Succession.successor_eq_none_of_notMem
  simpa [stateOne_signers, Succession.kids] using
    keyFingerprint_injective.ne hkeys.firstSecond.symm

theorem admits_third (hkeys : Distinct P first second third) :
    Succession.Admits (stateTwo P first second entry).signers
      (keyFingerprint (P.verifyingKey third)) := by
  apply Or.inr
  apply Succession.successor_eq_none_of_notMem
  simpa [stateTwo_signers hkeys, Succession.kids] using
    ⟨keyFingerprint_injective.ne hkeys.firstThird.symm,
      keyFingerprint_injective.ne hkeys.secondThird.symm⟩

theorem not_admits_first (hkeys : Distinct P first second third) :
    ¬ Succession.Admits (stateThree P first second third entry).signers
      (keyFingerprint (P.verifyingKey first)) := by
  have hsecond := keyFingerprint_injective.ne hkeys.firstSecond
  have hthird := keyFingerprint_injective.ne hkeys.firstThird
  rw [stateThree_signers hkeys]
  simp [Succession.Admits, Succession.current, Succession.successor,
    Ne.symm hthird]

theorem verifyRecord_lineZero (hone : P.OneSigner)
    (hentry : entry.WithinLimit) {ring : List VerifyingKey}
    (hring : P.verifyingKey first ∈ ring) :
    verifyRecord P ring none {} (lineZero P first entry) =
      .ok (stateOne P first entry) :=
  verifyRecord_sealedAs hone hring (Or.inr rfl)
    (Entry.withSeq_withinLimit.mpr hentry) rfl (by simp)

variable (hone : P.OneSigner) (hkeys : Distinct P first second third)
  (hentry : entry.WithinLimit)
include hone hkeys hentry

theorem verifyRecord_lineOne {ring : List VerifyingKey}
    (hring : P.verifyingKey second ∈ ring) :
    verifyRecord P ring none (stateOne P first entry)
        (lineOne P first second entry) =
      .ok (stateTwo P first second entry) :=
  verifyRecord_sealedAs hone hring (admits_second hkeys)
    (Entry.withSeq_withinLimit.mpr hentry) rfl
    (by simp [eq_comm])

theorem verifyRecord_lineTwo {ring : List VerifyingKey}
    (hring : P.verifyingKey third ∈ ring) :
    verifyRecord P ring none (stateTwo P first second entry)
        (lineTwo P first second third entry) =
      .ok (stateThree P first second third entry) :=
  verifyRecord_sealedAs hone hring (admits_third hkeys)
    (Entry.withSeq_withinLimit.mpr hentry) rfl
    (by simp [eq_comm])

omit hentry in
/-- The verifier refuses the first key's return. -/
theorem verifyRecord_lineThree {ring : List VerifyingKey}
    {next : VerifyState} (hring : ring ≠ []) :
    verifyRecord P ring none (stateThree P first second third entry)
        (lineThree P first second third entry) ≠ .ok next := by
  intro hok
  obtain ⟨record, signers, records, haccepted, -, -⟩ :=
    (verifyRecord_eq_ok_iff P _ _ _ _ _).mp hok
  obtain ⟨key, -, hsigned, hadmits, -⟩ :=
    checkSignature_eq_ok P hring haccepted.signature
  have hread := haccepted.read
  rw [lineThree, readRecord_line] at hread
  cases hread
  rw [hsigned.unique P hone (signedBy_sealRecord _ _ _)] at hadmits
  exact not_admits_first hkeys hadmits

omit hentry in
/-- The first record's signature verifies under neither other key. -/
theorem signerOf_lineZero {value : Value}
    (hentry : entry.WithinLimit)
    (hvalue : parseValue P (lineZero P first entry) = some value) :
    signerOf P value [P.verifyingKey second, P.verifyingKey third] =
      none := by
  by_contra hsome
  obtain ⟨signer, hsigner⟩ := Option.ne_none_iff_exists'.mp hsome
  have hzero : P.verifyingKey first ∈ [P.verifyingKey first] := by simp
  obtain ⟨record, signers, records, haccepted, -, -⟩ :=
    (verifyRecord_eq_ok_iff P _ _ _ _ _).mp
      (verifyRecord_lineZero hone hentry hzero)
  have hread := haccepted.read
  rw [lineZero, readRecord_line] at hread
  cases hread
  have hfirst := signerOf_eq P hone haccepted hvalue
    (signedBy_sealedAs (by simp)) hsigner
  obtain ⟨members, rfl⟩ := parseValue_line_object P hvalue
  rcases textMember_of_readRecord P (readRecord_line P _) hvalue with
    ⟨items, harray⟩ | ⟨-, -, hkid⟩
  · cases harray
  · obtain ⟨key, hkey, hname⟩ := signerOf_mem hkid hsigner
    have heq := keyFingerprint_injective (hfirst.symm.trans hname)
    simp only [List.mem_cons, List.not_mem_nil, or_false] at hkey
    rcases hkey with rfl | rfl
    · exact hkeys.firstSecond heq
    · exact hkeys.firstThird heq

end Steps

/-! ## What the two paths make of it -/

section Paths

variable (P) (first second third : SigningKey) (entry : Entry)

/-- A process that does not hold the first key. -/
def thirdLedger : ShardedLedger P where
  key := third
  verifiers := [P.verifyingKey second, P.verifyingKey third]
  own := by simp

/-- A process still running under the first key. -/
def firstLedger : ShardedLedger P where
  key := first
  verifiers := [P.verifyingKey first, P.verifyingKey third]
  own := by simp

/-- The spans the third key's process reads: the first key has no name. -/
def hiddenSpans : List KeySpan :=
  [⟨"", 0⟩, ⟨keyFingerprint (P.verifyingKey second), 1⟩,
    ⟨keyFingerprint (P.verifyingKey third), 2⟩]

def hiddenHistory : Shard :=
  (unnamedHistory P first second entry).commit
    { nextSeq := 3
      lastHash := (stateThree P first second third entry).prev
      signers := some
        { through := 3
          spans := hiddenSpans P second third } }
    (lineTwo P first second third entry)

def returnedHistory : Shard :=
  (hiddenHistory P first second third entry).commit
    { nextSeq := 4
      lastHash := (sealRecord P first (entry.withSeq 3)
        (stateThree P first second third entry).prev).hash
      signers := some
        { through := 4
          spans := hiddenSpans P second third ++
            [⟨keyFingerprint (P.verifyingKey first), 3⟩] } }
    (lineThree P first second third entry)

variable {P first second third entry}

theorem spansOf_unnamedHistory (hone : P.OneSigner)
    (hkeys : Distinct P first second third)
    (hentry : entry.LineWithinLimit) :
    ∃ parsed, (unnamedHistory P first second entry).lines.mapM
        (parseValue P) = some parsed ∧
      spansOf P parsed [P.verifyingKey second, P.verifyingKey third] =
        [⟨"", 0⟩, ⟨keyFingerprint (P.verifyingKey second), 1⟩] := by
  obtain ⟨zero, hzero⟩ := Option.isSome_iff_exists.mp
    ((parseValue_line_isSome_iff P (sealedAs P first
      (entry.withSeq 0) genesis none) (by
        change 0 < 2 ^ 64
        decide)).mpr hentry)
  obtain ⟨one, hone'⟩ := Option.isSome_iff_exists.mp
    ((parseValue_line_isSome_iff P (sealRecord P second
      (entry.withSeq 1) (stateOne P first entry).prev) (by
        change 1 < 2 ^ 64
        decide)).mpr hentry)
  refine ⟨[zero, one], ?_, ?_⟩
  · simp only [unnamedHistory, Shard.lines, List.map_cons, List.map_nil,
      lineZero, lineOne, List.mapM_cons, List.mapM_nil, hzero, hone']
    rfl
  · have hsignerZero := signerOf_lineZero hone hkeys hentry.withinLimit hzero
    have hsignerOne := signerOf_line P (sealRecord P second
      (entry.withSeq 1) (stateOne P first entry).prev) rfl hone'
      [P.verifyingKey second, P.verifyingKey third]
    have hname := keyFingerprint_ne_empty (P.verifyingKey second)
    simp [spansOf, hsignerZero, hsignerOne, Succession.extend,
      Succession.current, hname.symm]

theorem mayExtend_third (hkeys : Distinct P first second third) :
    mayExtend [⟨"", 0⟩, ⟨keyFingerprint (P.verifyingKey second), 1⟩]
      (keyFingerprint (P.verifyingKey third))
      [P.verifyingKey second, P.verifyingKey third] "shard" = .ok () := by
  have hsecond := keyFingerprint_ne_empty (P.verifyingKey second)
  have hthird := keyFingerprint_ne_empty (P.verifyingKey third)
  have hne := keyFingerprint_injective.ne hkeys.secondThird
  simp [mayExtend, hsecond, hne, LineText.rposition, Succession.kids,
    hthird.symm]

/-- The third key's process extends the history, and hides the first key in
the cursor. -/
theorem third_appends (hone : P.OneSigner)
    (hkeys : Distinct P first second third)
    (hentry : entry.LineWithinLimit) :
    ∃ record, (thirdLedger P second third).appendThroughHistory "shard"
        (unnamedHistory P first second entry) entry .ok =
      (.ok record, hiddenHistory P first second third entry) := by
  obtain ⟨parsed, hparsed, hspans⟩ :=
    spansOf_unnamedHistory hone hkeys hentry
  have hne := keyFingerprint_injective.ne hkeys.secondThird
  have hmay := mayExtend_third hkeys
  have hextend : Succession.extend
      [⟨"", 0⟩, ⟨keyFingerprint (P.verifyingKey second), 1⟩]
      (keyFingerprint (P.verifyingKey third)) 2 =
      hiddenSpans P second third := by
    simp [Succession.extend, Succession.current, hne, hiddenSpans]
  rw [ShardedLedger.appendThroughHistory_eq, hparsed]
  simp only [thirdLedger, hspans, ShardedLedger.appendUnder,
    ShardedLedger.sealEntry, ShardedLedger.kid, hmay]
  have hseq : (unnamedHistory P first second entry).nextSeq = 2 := rfl
  have hhash : (unnamedHistory P first second entry).lastHash =
      (stateTwo P first second entry).prev := rfl
  simp only [hseq, hhash, hextend, bind, Except.bind, pure, Except.pure]
  exact ⟨_, rfl⟩

/-- By the cursor the first key may return. -/
theorem first_returns (hkeys : Distinct P first second third)
    (entry : Entry) :
    ∃ record, (firstLedger P first third).appendAtHead "shard"
        (hiddenHistory P first second third entry) entry .ok =
      some (.ok record, returnedHistory P first second third entry) := by
  have hsecond := keyFingerprint_injective.ne hkeys.firstSecond
  have hthird := keyFingerprint_injective.ne hkeys.firstThird
  have hfirst := keyFingerprint_ne_empty (P.verifyingKey first)
  have hlast := keyFingerprint_ne_empty (P.verifyingKey third)
  have hmay : mayExtend (hiddenSpans P second third)
      (keyFingerprint (P.verifyingKey first))
      [P.verifyingKey first, P.verifyingKey third] "shard" = .ok () := by
    simp [mayExtend, hiddenSpans, hlast, hthird.symm, LineText.rposition,
      Succession.kids, hsecond.symm, hfirst.symm]
  have hcurrent : currentSpans
      (hiddenHistory P first second third entry).cursor =
      some (hiddenSpans P second third) := rfl
  have hextend : Succession.extend (hiddenSpans P second third)
      (keyFingerprint (P.verifyingKey first)) 3 =
      hiddenSpans P second third ++
        [⟨keyFingerprint (P.verifyingKey first), 3⟩] := by
    simp [Succession.extend, Succession.current, hiddenSpans, hthird.symm]
  have hseq : (hiddenHistory P first second third entry).nextSeq = 3 := rfl
  have hhash : (hiddenHistory P first second third entry).lastHash =
      (stateThree P first second third entry).prev := rfl
  simp only [ShardedLedger.appendAtHead, hcurrent, Option.map_some,
    ShardedLedger.appendUnder, ShardedLedger.sealEntry, ShardedLedger.kid,
    firstLedger, hmay, hseq, hhash, hextend, bind, Except.bind, pure,
    Except.pure]
  exact ⟨_, rfl⟩

theorem verifyState_unnamed (hone : P.OneSigner)
    (hkeys : Distinct P first second third) (hentry : entry.WithinLimit)
    {ring : List VerifyingKey} (hfirst : P.verifyingKey first ∈ ring)
    (hsecond : P.verifyingKey second ∈ ring) :
    verifyState P ring none
        ((unnamedHistory P first second entry).lines.map .ok) =
      .ok (stateTwo P first second entry) := by
  change verifyFrom P ring none {} [.ok (lineZero P first entry),
    .ok (lineOne P first second entry)] = _
  rw [verifyFrom_cons, verifyLine_of_verifyRecord
    (verifyRecord_lineZero hone hentry hfirst)]
  simp only [bind, Except.bind, verifyFrom_singleton]
  exact verifyLine_of_verifyRecord
    (verifyRecord_lineOne hone hkeys hentry hsecond)

/-- The history of the first two keys is one a verifier accepts. -/
theorem unnamedHistory_written (hone : P.OneSigner)
    (hkeys : Distinct P first second third) (hentry : entry.WithinLimit) :
    (unnamedHistory P first second entry).Written P
      [P.verifyingKey first, P.verifyingKey second]
      (stateTwo P first second entry) where
  keyed := by simp
  accepted := verifyState_unnamed hone hkeys hentry (by simp) (by simp)
  counted := rfl
  numbered := rfl
  nextSeq := rfl
  lastHash := rfl
  behind := by
    intro cursor signers hcursor hsigners
    cases hcursor
    cases hsigners

/-- With the first key's return the shard stops verifying. -/
theorem returnedHistory_not_verifies (hone : P.OneSigner)
    (hkeys : Distinct P first second third) (hentry : entry.WithinLimit) :
    ¬ (returnedHistory P first second third entry).Verifies P := by
  rintro ⟨-, hverifies⟩
  have hring : HoldsSigners P
      [P.verifyingKey first, P.verifyingKey second, P.verifyingKey third]
      (returnedHistory P first second third entry).lines := by
    intro line hline
    simp only [returnedHistory, hiddenHistory, unnamedHistory, Shard.commit,
      Shard.lines, List.map_append, List.map_cons, List.map_nil,
      List.mem_append, List.mem_cons, List.not_mem_nil, or_false] at hline
    rcases hline with ((rfl | rfl) | rfl) | rfl
    · exact ⟨_, by simp, _, readRecord_line P _,
        signedBy_sealedAs (by simp)⟩
    · exact ⟨_, by simp, _, readRecord_line P _, signedBy_sealRecord _ _ _⟩
    · exact ⟨_, by simp, _, readRecord_line P _, signedBy_sealRecord _ _ _⟩
    · exact ⟨_, by simp, _, readRecord_line P _, signedBy_sealRecord _ _ _⟩
  obtain ⟨report, hreport, -⟩ := hverifies _ hring
  have hlines : (returnedHistory P first second third entry).lines =
      (unnamedHistory P first second entry).lines ++
        [lineTwo P first second third entry,
          lineThree P first second third entry] := by
    simp [returnedHistory, hiddenHistory]
  obtain ⟨state, hstate, -⟩ :=
    (verifyStoredRecords_eq_ok_iff _ _ _).mp hreport
  change verifyState P _ none
    ((returnedHistory P first second third entry).lines.map .ok) = _ at hstate
  have hthree : verifyLine P
      [P.verifyingKey first, P.verifyingKey second, P.verifyingKey third]
      none (stateTwo P first second entry)
      (.ok (lineTwo P first second third entry)) =
      .ok (stateThree P first second third entry) :=
    verifyLine_of_verifyRecord
      (verifyRecord_lineTwo hone hkeys hentry (by simp))
  rw [hlines, List.map_append, verifyState_append,
    verifyState_unnamed hone hkeys hentry (by simp) (by simp)] at hstate
  simp only [bind, Except.bind, List.map_cons, List.map_nil, verifyFrom_cons,
    hthree] at hstate
  have hblank : RustText.isBlank (lineThree P first second third entry) =
      false := line_not_blank P _
  rw [verifyLine_of_not_blank P _ _ _ hblank] at hstate
  split at hstate
  case h_1 => cases hstate
  case h_2 next hnext =>
    exact verifyRecord_lineThree hone hkeys (by simp) hnext

/-! ## The run -/

theorem afterUnaware_first (hone : P.OneSigner)
    (hentry : entry.WithinLimit) :
    Shard.afterUnaware P {} (lineZero P first entry) [P.verifyingKey first]
        none =
      some
        { cursor := some
            { nextSeq := 1
              lastHash := (stateOne P first entry).prev
              signers := none }
          records := [⟨0, lineZero P first entry⟩] } := by
  have hzero : verifyRecord P [P.verifyingKey first] none {}
      (lineZero P first entry) = .ok (stateOne P first entry) :=
    verifyRecord_lineZero hone hentry (by simp)
  have hstate : verifyState P [P.verifyingKey first] none
      (Shard.lines {} |>.map .ok) = .ok {} := rfl
  simp only [Shard.afterUnaware, hstate, hzero]
  rfl

theorem afterUnaware_second (hone : P.OneSigner)
    (hkeys : Distinct P first second third) (hentry : entry.WithinLimit) :
    Shard.afterUnaware P
        { cursor := some
            { nextSeq := 1
              lastHash := (stateOne P first entry).prev
              signers := none }
          records := [⟨0, lineZero P first entry⟩] }
        (lineOne P first second entry)
        [P.verifyingKey first, P.verifyingKey second] none =
      some (unnamedHistory P first second entry) := by
  have hzero : verifyState P [P.verifyingKey first, P.verifyingKey second]
      none [.ok (lineZero P first entry)] = .ok (stateOne P first entry) := by
    change verifyFrom P _ none {} _ = _
    rw [verifyFrom_singleton]
    exact verifyLine_of_verifyRecord
      (verifyRecord_lineZero hone hentry (by simp))
  have hnext : verifyRecord P
      [P.verifyingKey first, P.verifyingKey second] none
      (stateOne P first entry) (lineOne P first second entry) =
      .ok (stateTwo P first second entry) :=
    verifyRecord_lineOne hone hkeys hentry (by simp)
  simp only [Shard.afterUnaware, Shard.lines, List.map_cons, List.map_nil,
    hzero, hnext]
  rfl

/-- The first two keys' records from a writer that keeps no spans, then an
append of the third key's process, then one under the first key. -/
def returningRun (P : Platform) (first second third : SigningKey)
    (entry : Entry) : List (ShardOperation P) :=
  [.unaware "shard" (lineZero P first entry) [P.verifyingKey first] none,
    .unaware "shard" (lineOne P first second entry)
      [P.verifyingKey first, P.verifyingKey second] none,
    .append ⟨thirdLedger P second third, "shard", entry, .ok⟩,
    .readHistory 0,
    .append ⟨firstLedger P first third, "shard", entry, .ok⟩]

theorem hidden_after (hone : P.OneSigner)
    (hkeys : Distinct P first second third)
    (hentry : entry.LineWithinLimit) (world : ShardWorld P)
    (hshard : world.shards "shard" = unnamedHistory P first second entry)
    (hwaiting : world.waiting = []) :
    (world.after
        [.append ⟨thirdLedger P second third, "shard", entry, .ok⟩,
          .readHistory 0]).shards "shard" =
      hiddenHistory P first second third entry := by
  obtain ⟨record, hthird⟩ := third_appends hone hkeys hentry
  have hcursor : (thirdLedger P second third).appendAtHead "shard"
      (unnamedHistory P first second entry) entry .ok = none := rfl
  simp only [ShardWorld.after, StateRun.run_cons, StateRun.run_nil,
    ShardWorld.next, ShardWorld.step, hshard, hcursor, hwaiting,
    List.nil_append, List.getElem?_cons_zero, hthird, ShardWorld.write,
    Function.update_self]

theorem returningRun_shard (hone : P.OneSigner)
    (hkeys : Distinct P first second third)
    (hentry : entry.LineWithinLimit) :
    (ShardWorld.empty.after
        (returningRun P first second third entry)).shards "shard" =
      returnedHistory P first second third entry := by
  obtain ⟨record, hfirst⟩ := first_returns hkeys entry
  -- the two records of the writer that keeps no spans
  have hunnamed : ∃ world : ShardWorld P,
      world.shards "shard" = unnamedHistory P first second entry ∧
      world.waiting = [] ∧
      world = ShardWorld.empty.after
        ((returningRun P first second third entry).take 2) := by
    refine ⟨_, ?_, ?_, rfl⟩ <;>
      simp [ShardWorld.after, returningRun, ShardWorld.next, ShardWorld.step,
        ShardWorld.empty, afterUnaware_first hone hentry.withinLimit,
        ShardWorld.write,
        afterUnaware_second hone hkeys hentry.withinLimit]
  obtain ⟨world, hshard, hwaiting, hworld⟩ := hunnamed
  have hhidden := hidden_after hone hkeys hentry world hshard hwaiting
  have hrun : returningRun P first second third entry =
      (returningRun P first second third entry).take 2 ++
        ([.append ⟨thirdLedger P second third, "shard", entry, .ok⟩,
          .readHistory 0] ++
          [.append ⟨firstLedger P first third, "shard", entry, .ok⟩]) := rfl
  rw [hrun, ShardWorld.after_append, ShardWorld.after_append, ← hworld,
    ShardWorld.after]
  simp only [StateRun.run_cons, StateRun.run_nil, ShardWorld.next,
    ShardWorld.step, hhidden, hfirst, ShardWorld.write, Function.update_self]

end Paths

/-! ## On the sample platform -/

theorem sampleSign_toList_take (key : SigningKey)
    (message : ByteText.Bytes) :
    (sampleSign key message).toList.take 32 = key.toList := by
  rw [sampleSign, Vector.toList_append]
  exact List.take_left' Vector.length_toList

theorem samplePlatform_oneSigner : samplePlatform.OneSigner := by
  intro key other message sig hkey hother
  change (sig == sampleSign key message) = true at hkey
  change (sig == sampleSign other message) = true at hother
  rw [beq_iff_eq] at hkey hother
  apply Vector.toList_inj.mp
  rw [← sampleSign_toList_take key message,
    ← sampleSign_toList_take other message, ← hkey, ← hother]

theorem sample_distinct : Distinct samplePlatform (sampleKey 1) (sampleKey 2)
    (sampleKey 3) where
  firstSecond := sampleKey_injective.ne (by decide)
  firstThird := sampleKey_injective.ne (by decide)
  secondThird := sampleKey_injective.ne (by decide)

theorem sampleEntry_lineWithinLimit :
    (sampleEntry .null).LineWithinLimit := by
  decide

/-- The call of a process that appends a shallow entry. -/
def sampleCall (ledger : ShardedLedger samplePlatform) :
    AppendCall samplePlatform where
  ledger := ledger
  shard := "shard"
  entry := sampleEntry .null
  revise := .ok

theorem sampleCall_within (ledger : ShardedLedger samplePlatform) :
    (sampleCall ledger).Within := by
  rintro revised ⟨⟩
  exact sampleEntry_lineWithinLimit.withinLimit

/-- A record of the first key, and the shard a writer that keeps no spans
leaves with it. -/
def namedRecord : RecordOut :=
  sealRecord samplePlatform (sampleKey 1) ((sampleEntry .null).withSeq 0)
    genesis

def namedLine : String := namedRecord.line samplePlatform

def namedShard : Shard where
  cursor := some
    { nextSeq := 1
      lastHash := namedRecord.hash
      signers := none }
  records := [⟨0, namedLine⟩]

/-- A writer that keeps no spans, and the first record of a shard. -/
theorem afterUnaware_sealed {key : SigningKey} {entry : Entry}
    (hentry : entry.WithinLimit) (hseq : entry.seq = 0) :
    Shard.afterUnaware P {} ((sealRecord P key entry genesis).line P)
        [P.verifyingKey key] none =
      some
        { cursor := some
            { nextSeq := 1
              lastHash := (sealRecord P key entry genesis).hash
              signers := none }
          records := [⟨0, (sealRecord P key entry genesis).line P⟩] } := by
  have hrecord : verifyRecord P [P.verifyingKey key] none {}
      ((sealRecord P key entry genesis).line P) =
        .ok (VerifyState.afterSealed P {} key entry) := by
    rw [verifyRecord_eq_ok_iff]
    exact ⟨_, _, [], accepted_sealRecord P (List.mem_singleton.mpr rfl)
      (Or.inr rfl) hentry hseq, rfl, rfl⟩
  have hstate : verifyState P [P.verifyingKey key] none
      (Shard.lines {} |>.map .ok) = .ok {} := rfl
  simp only [Shard.afterUnaware, hstate, hrecord]
  rfl

/-- A cursor without spans sends an append to the history. -/
theorem appendAtHead_unaware (ledger : ShardedLedger P) (name : String)
    {shard : Shard} {nextSeq : ℕ} {lastHash : String}
    (hcursor : shard.cursor = some ⟨nextSeq, lastHash, none⟩) (entry : Entry)
    (revise : Entry → Except LedgerError Entry) :
    ledger.appendAtHead name shard entry revise = none := by
  rw [ShardedLedger.appendAtHead, hcursor]
  rfl

theorem afterUnaware_named :
    Shard.afterUnaware samplePlatform {} namedLine [sampleKey 1] none =
      some namedShard :=
  afterUnaware_sealed sampleEntry_lineWithinLimit.withinLimit rfl

theorem attributed_namedLine (verifiers : List VerifyingKey) :
    Attributed samplePlatform verifiers namedLine := by
  have hsome := (parseValue_line_isSome_iff samplePlatform namedRecord
    (by decide)).mpr sampleEntry_lineWithinLimit
  obtain ⟨value, hvalue⟩ := Option.isSome_iff_exists.mp hsome
  refine ⟨value, hvalue, ?_⟩
  rw [signerOf_line samplePlatform namedRecord rfl hvalue]
  rfl

/-- A record without spans, and the append of another process after it, which
has to read the history. -/
def waitingRun : List (ShardOperation samplePlatform) :=
  [.unaware "shard" namedLine [sampleKey 1] none,
    .append (sampleCall (.new samplePlatform (sampleKey 2) [sampleKey 1]))]

theorem after_unaware_append {name line : String}
    {ring : List VerifyingKey} {signers : Option ShardSigners} {shard : Shard}
    {call : AppendCall P}
    (hshard : Shard.afterUnaware P {} line ring signers = some shard)
    (hname : call.shard = name)
    (hwaits : call.ledger.appendAtHead name shard call.entry call.revise =
      none) :
    (ShardWorld.empty.after
        [.unaware name line ring signers, .append call]).shards name =
          shard ∧
      (ShardWorld.empty.after
        [.unaware name line ring signers, .append call]).waiting = [call] := by
  subst hname
  constructor <;>
    simp [ShardWorld.after, ShardWorld.next, ShardWorld.step,
      ShardWorld.empty, hshard, ShardWorld.write, hwaits]

theorem after_waitingRun :
    (ShardWorld.empty.after waitingRun).shards "shard" = namedShard ∧
      (ShardWorld.empty.after waitingRun).waiting =
        [sampleCall (.new samplePlatform (sampleKey 2) [sampleKey 1])] := by
  have hwaits : (sampleCall (.new samplePlatform (sampleKey 2)
      [sampleKey 1])).ledger.appendAtHead "shard" namedShard
        (sampleEntry .null) .ok = none :=
    appendAtHead_unaware _ "shard" rfl _ _
  rw [waitingRun]
  exact after_unaware_append afterUnaware_named rfl hwaits

theorem waitingRun_within :
    StateRun.Admitted ShardWorld.next
      (fun world operation => ShardOperation.Within world operation)
      ShardWorld.empty waitingRun :=
  ⟨trivial, sampleCall_within _, trivial⟩

theorem readHistory_within {world : ShardWorld P} {index : ℕ}
    {call : AppendCall P} (hcall : world.waiting[index]? = some call)
    (hwithin : call.Within) (hlines : ∀ line ∈ (world.shards call.shard).lines,
      Attributes P call.ledger.verifiers line) :
    ShardOperation.Within world (.readHistory index) := by
  intro other hother
  rw [hcall] at hother
  cases hother
  exact ⟨hwithin, hlines⟩

theorem sharded_append_safety_sample :
    ((ShardWorld.empty.after (waitingRun ++ [.readHistory 0])).shards
        "shard").Verifies samplePlatform ∧
      (ShardWorld.empty.after waitingRun).Answered
        ((ShardWorld.empty.after waitingRun).step (.readHistory 0)).1
        (sampleCall (.new samplePlatform (sampleKey 2) [sampleKey 1]))
        ((ShardWorld.empty.after waitingRun).step (.readHistory 0)).2 := by
  obtain ⟨hshard, hwaiting⟩ := after_waitingRun
  have hcall : (ShardWorld.empty.after waitingRun).waiting[0]? =
      some (sampleCall (.new samplePlatform (sampleKey 2) [sampleKey 1])) := by
    rw [hwaiting, List.getElem?_cons_zero]
  have hname : (sampleCall
      (.new samplePlatform (sampleKey 2) [sampleKey 1])).shard = "shard" := rfl
  have hlines : ∀ line ∈ ((ShardWorld.empty.after waitingRun).shards
      (sampleCall (.new samplePlatform (sampleKey 2)
        [sampleKey 1])).shard).lines,
      Attributes samplePlatform (sampleCall (.new samplePlatform
        (sampleKey 2) [sampleKey 1])).ledger.verifiers line := by
    rw [hname, hshard]
    intro line hline
    rw [List.mem_singleton.mp hline]
    exact (attributed_namedLine _).attributes
  have hread := readHistory_within hcall (sampleCall_within _) hlines
  have hadmitted : StateRun.Admitted ShardWorld.next
      (fun world operation => ShardOperation.Within world operation)
      ShardWorld.empty (waitingRun ++ [.readHistory 0]) := by
    rw [StateRun.admitted_append]
    refine ⟨waitingRun_within, ?_⟩
    change ShardOperation.Within (ShardWorld.empty.after waitingRun) _ ∧ True
    exact ⟨hread, trivial⟩
  have hverifies := (sharded_append_safety samplePlatform_oneSigner _
    hadmitted).1 "shard"
  have hsafety := sharded_append_safety samplePlatform_oneSigner waitingRun
    waitingRun_within
  generalize ShardWorld.empty.after waitingRun = world at hsafety hcall ⊢
  exact ⟨hverifies, hsafety.2.2 0 _ hcall⟩

/-- A key returns after another took over, and the shard stops verifying. -/
theorem superseded_key_breaks_shard :
    ¬ ∀ (operations : List (ShardOperation samplePlatform)) (name : String),
      ((ShardWorld.empty.after operations).shards name).Verifies
        samplePlatform := by
  intro hall
  have hshard := hall (returningRun samplePlatform (sampleKey 1)
    (sampleKey 2) (sampleKey 3) (sampleEntry .null)) "shard"
  rw [returningRun_shard samplePlatform_oneSigner sample_distinct
    sampleEntry_lineWithinLimit] at hshard
  exact returnedHistory_not_verifies samplePlatform_oneSigner sample_distinct
    sampleEntry_lineWithinLimit.withinLimit hshard

/-- Every shard holds the history of the first two keys. -/
def sampleHistories : ShardWorld samplePlatform where
  shards _ := unnamedHistory samplePlatform (sampleKey 1) (sampleKey 2)
    (sampleEntry .null)

theorem sampleHistories_written (name : String) :
    ∃ ring state, (sampleHistories.shards name).Written samplePlatform ring
      state :=
  ⟨_, _, unnamedHistory_written samplePlatform_oneSigner sample_distinct
    sampleEntry_lineWithinLimit.withinLimit⟩

theorem after_sampleCall :
    (ShardWorld.empty.after [.append (sampleCall
      (.new samplePlatform (sampleKey 1) []))]).shards "shard" =
        { namedShard with
          cursor := some
            { nextSeq := 1
              lastHash := namedRecord.hash
              signers := some
                { through := 1
                  spans := [⟨keyFingerprint (sampleKey 1), 0⟩] } } } := rfl

theorem cursor_path_eq_history_path_sample :
    ∃ fast, (ShardedLedger.new samplePlatform (sampleKey 2)
        [sampleKey 1]).appendAtHead "shard"
        ((ShardWorld.empty.after [.append (sampleCall
          (.new samplePlatform (sampleKey 1) []))]).shards "shard")
        (sampleEntry .null) .ok = some fast ∧
      fast.2.Verifies samplePlatform ∧
      (ShardedLedger.new samplePlatform (sampleKey 2)
        [sampleKey 1]).appendThroughHistory "shard"
        ((ShardWorld.empty.after [.append (sampleCall
          (.new samplePlatform (sampleKey 1) []))]).shards "shard")
        (sampleEntry .null) .ok = fast := by
  have hpaths := cursor_path_eq_history_path samplePlatform_oneSigner
    ShardWorld.empty
    (fun _ => ⟨[sampleKey 1], {}, Shard.empty_written (by simp)⟩)
    [.append (sampleCall (.new samplePlatform (sampleKey 1) []))]
    ⟨sampleCall_within _, trivial⟩
    (sampleCall (.new samplePlatform (sampleKey 2) [sampleKey 1]))
    (sampleCall_within _)
  refine ⟨_, rfl, hpaths.1 _ rfl, (hpaths.2 ?_).2 _ rfl⟩
  have hname : (sampleCall
      (.new samplePlatform (sampleKey 2) [sampleKey 1])).shard = "shard" := rfl
  rw [hname, after_sampleCall]
  intro line hline
  rw [List.mem_singleton.mp hline]
  exact attributed_namedLine _

/-- The cursor admits a key that the history, and the verifier, refuse. -/
theorem cursor_path_differs :
    ¬ ∀ (start : ShardWorld samplePlatform)
      (operations : List (ShardOperation samplePlatform))
      (call : AppendCall samplePlatform)
      (fast : Except LedgerError RecordOut × Shard),
      (∀ name, ∃ ring state,
        (start.shards name).Written samplePlatform ring state) →
      call.ledger.appendAtHead call.shard
          ((start.after operations).shards call.shard) call.entry
          call.revise = some fast →
      call.ledger.appendThroughHistory call.shard
          ((start.after operations).shards call.shard) call.entry
          call.revise = fast ∧ fast.2.Verifies samplePlatform := by
  intro hall
  obtain ⟨record, hfirst⟩ :=
    first_returns sample_distinct (sampleEntry .null)
  have hhidden := hidden_after samplePlatform_oneSigner sample_distinct
    sampleEntry_lineWithinLimit sampleHistories rfl rfl
  have hcall := hall sampleHistories _
    (sampleCall (firstLedger samplePlatform (sampleKey 1) (sampleKey 3)))
    _ sampleHistories_written (by
      rw [sampleCall, hhidden]
      exact hfirst)
  exact returnedHistory_not_verifies samplePlatform_oneSigner sample_distinct
    sampleEntry_lineWithinLimit.withinLimit hcall.2

end Decern
