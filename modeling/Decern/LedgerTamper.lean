import Decern.HashChain
import Decern.LedgerMerkle
import Decern.LedgerOpen
import Mathlib.Tactic

/-!
# Tamper evidence

The entries of an accepted ledger are the items of a hash chain that starts at
the genesis head.  The head of the chain therefore fixes every entry, byte for
byte, whatever the lines around the entries look like; and the second reading
that a checkpoint is held against walks the same chain.
-/

namespace Decern

open ByteText (Bytes)
open Serde (Value)

variable (P : Platform)

/-- The stored entry of each record, in order. -/
def entryTexts (lines : List (Except LedgerError String)) : List String :=
  (recordsOf P lines).map RecordIn.entry

/-- The head a record leaves, from its entry and the head before it. -/
def chainLink (entry prev : String) : String :=
  HexText.encode (chainHash P (ByteText.encode entry) prev)

/-- What is hashed for one record. -/
def chainInput (input : String × String) : Bytes :=
  ByteText.encode input.1 ++ ByteText.encode input.2

/-- What is hashed for the records among lines. -/
def chainInputs (lines : List (Except LedgerError String)) : List Bytes :=
  (HashChain.inputs (chainLink P) genesis (entryTexts P lines)).map
    chainInput

/-! ## Inputs that do not collide -/

theorem length_encode_chainLink (entry prev : String) :
    (ByteText.encode (chainLink P entry prev)).length = 64 := by
  rw [chainLink, HexText.length_encode_hex, chainHash, P.sha256_length]

theorem length_encode_genesis : (ByteText.encode genesis).length = 64 := by
  decide

theorem chainInput_inj {left right : String × String}
    (hleft : (ByteText.encode left.2).length = 64)
    (hright : (ByteText.encode right.2).length = 64)
    (heq : chainInput left = chainInput right) : left = right := by
  obtain ⟨hentry, hprev⟩ := List.append_inj' heq (hleft.trans hright.symm)
  exact Prod.ext (ByteText.encode_injective hentry)
    (ByteText.encode_injective hprev)

theorem length_encode_of_mem_inputs {entries : List String}
    {input : String × String}
    (hinput : input ∈ HashChain.inputs (chainLink P) genesis entries) :
    (ByteText.encode input.2).length = 64 := by
  rcases HashChain.snd_of_mem_inputs (chainLink P) hinput with
    hstart | ⟨entry, prev, hhash⟩
  · rw [hstart]
    exact length_encode_genesis
  · rw [hhash]
    exact length_encode_chainLink P entry prev

theorem apart_of_collisionFree
    {left right : List (Except LedgerError String)}
    (hfree : P.CollisionFree (chainInputs P left ++ chainInputs P right)) :
    HashChain.Apart (chainLink P)
      (HashChain.inputs (chainLink P) genesis (entryTexts P left))
      (HashChain.inputs (chainLink P) genesis (entryTexts P right)) := by
  intro a ha b hb hlink
  have hinput := hfree (chainInput a)
    (List.mem_append_left _ (List.mem_map_of_mem ha)) (chainInput b)
    (List.mem_append_right _ (List.mem_map_of_mem hb))
    (HexText.encode_injective hlink)
  exact chainInput_inj (length_encode_of_mem_inputs P ha)
    (length_encode_of_mem_inputs P hb) hinput

/-! ## What the walks see -/

@[simp] theorem entryTexts_nil : entryTexts P [] = [] :=
  rfl

theorem entryTexts_blank {line : String}
    {rest : List (Except LedgerError String)}
    (hblank : RustText.isBlank line = true) :
    entryTexts P (.ok line :: rest) = entryTexts P rest := by
  simp [entryTexts, recordsOf, hblank]

theorem entryTexts_record {line : String} {record : RecordIn}
    {rest : List (Except LedgerError String)}
    (hblank : ¬ RustText.isBlank line = true)
    (hread : readRecord P line = .ok record) :
    entryTexts P (.ok line :: rest) =
      record.entry :: entryTexts P rest := by
  simp [entryTexts, recordsOf, hblank, hread, Except.toOption]

/-- Accepted lines chain their entries onto the head they are read after, and
number them from its count. -/
structure ChainedFrom (state final : VerifyState) (entries : List String) :
    Prop where
  head : final.prev = HashChain.head (chainLink P) state.prev entries
  count : final.count = state.count + entries.length
  seq : ∀ i text, entries[i]? = some text →
    ∃ entry, parseEntry P text = .ok entry ∧ entry.seq = state.count + i

theorem chainedFrom_of_verifyFrom {keys : List VerifyingKey}
    {window : Option ReadWindow} {state final : VerifyState}
    {lines : List (Except LedgerError String)}
    (hok : verifyFrom P keys window state lines = .ok final) :
    ChainedFrom P state final (entryTexts P lines) := by
  induction lines generalizing state with
  | nil =>
      cases hok
      exact ⟨rfl, rfl, by simp⟩
  | cons line rest ih =>
      rw [verifyFrom_cons] at hok
      cases hline : verifyLine P keys window state line with
      | error error =>
          rw [hline] at hok
          cases hok
      | ok next =>
          rw [hline] at hok
          have hrest := ih hok
          cases line with
          | error error => cases hline
          | ok text =>
              unfold verifyLine at hline
              simp only at hline
              split at hline
              case isTrue hblank =>
                cases hline
                rw [entryTexts_blank P hblank]
                exact ⟨hrest.head, hrest.count, hrest.seq⟩
              case isFalse hblank =>
                obtain ⟨record, signers, records, haccepted, _, rfl⟩ :=
                  (verifyRecord_eq_ok_iff P _ _ _ _ _).mp hline
                rw [entryTexts_record P hblank haccepted.read]
                have hhash : record.hash =
                    chainLink P record.entry state.prev := by
                  rw [← haccepted.hash, ← haccepted.prev]
                  rfl
                constructor
                · rw [hrest.head, HashChain.head_cons, ← hhash]
                  rfl
                · rw [hrest.count, List.length_cons]
                  simp only [VerifyState.after]
                  omega
                · intro i text hi
                  cases i with
                  | zero =>
                      cases hi
                      exact haccepted.entry
                  | succ i =>
                      obtain ⟨entry, hentry, hseq⟩ := hrest.seq i text hi
                      refine ⟨entry, hentry, ?_⟩
                      rw [hseq]
                      simp only [VerifyState.after]
                      omega

/-- A head that the second reading finds is the chain's after as many
entries. -/
theorem head_of_rootFrom {count : ℕ} {prev root : String} {seen : ℕ}
    {lines : List (Except LedgerError String)} (hseen : seen < count)
    (hok : rootFrom P count prev seen lines = .ok (some root)) :
    count - seen ≤ (entryTexts P lines).length ∧
      root = HashChain.head (chainLink P) prev
        ((entryTexts P lines).take (count - seen)) := by
  induction lines generalizing prev seen with
  | nil => cases hok
  | cons line rest ih =>
      cases line with
      | error error => cases hok
      | ok text =>
          rw [rootFrom] at hok
          split at hok
          case isTrue hblank =>
            rw [entryTexts_blank P hblank]
            exact ih hseen hok
          case isFalse hblank =>
            split at hok
            case h_1 => cases hok
            case h_2 record hread =>
              rw [entryTexts_record P hblank hread]
              split at hok
              case isTrue => cases hok
              case isFalse hprev =>
                split at hok
                case isTrue => cases hok
                case isFalse hhash =>
                  have hrecord : record.hash =
                      chainLink P record.entry prev := by
                    rw [← not_not.mp hhash, not_not.mp hprev]
                    rfl
                  split at hok
                  case isTrue hlast =>
                    cases hok
                    have hone : count - seen = 1 := by omega
                    rw [hone]
                    exact ⟨by simp, by simpa using hrecord⟩
                  case isFalse hmore =>
                    obtain ⟨hle, hroot⟩ := ih (by omega) hok
                    have hstep : count - seen =
                        count - (seen + 1) + 1 := by omega
                    rw [hstep, List.take_succ_cons, List.length_cons,
                      HashChain.head_cons, ← hrecord]
                    exact ⟨by omega, hroot⟩

/-- A checkpoint a log extends is its chain's head after as many entries. -/
theorem head_of_rootAtCount {files : List LedgerFile} {count : ℕ}
    {root : String}
    (hok : rootAtCount P files count = .ok (some root)) :
    count ≤ (entryTexts P (prefixLines files).1).length ∧
      root = HashChain.head (chainLink P) genesis
        ((entryTexts P (prefixLines files).1).take count) := by
  unfold rootAtCount at hok
  split at hok
  case isTrue hzero =>
    cases hok
    simp [hzero]
  case isFalse hne => exact head_of_rootFrom P (Nat.pos_of_ne_zero hne) hok

theorem rootAtCount_of_extends {files : List LedgerFile} {cp : Checkpoint}
    (hok : ledgerExtendsCheckpointAt P files cp = .ok true) :
    rootAtCount P files cp.count.toNat = .ok (some cp.root) := by
  unfold ledgerExtendsCheckpointAt at hok
  cases hroot : rootAtCount P files cp.count.toNat with
  | error error =>
      rw [hroot] at hok
      cases hok
  | ok root =>
      rw [hroot] at hok
      simpa [Except.map] using hok

/-! ## The head fixes the entries -/

theorem verifyLines_of_verifyState {keys : List VerifyingKey}
    {window : Option ReadWindow} {lines : List (Except LedgerError String)}
    {final : VerifyState}
    (hok : verifyState P keys window lines = .ok final) :
    verifyLines P keys window lines =
      .ok (final.report keys, final.records) := by
  rw [verifyLines, hok]
  rfl

/-- Accepted lines, as a chain of entries. -/
theorem verifyLines_eq_ok {keys : List VerifyingKey}
    {window : Option ReadWindow} {lines : List (Except LedgerError String)}
    {report : VerifyReport} {records : List Value}
    (hok : verifyLines P keys window lines = .ok (report, records)) :
    ∃ final, verifyState P keys window lines = .ok final ∧
      report = final.report keys ∧
      ChainedFrom P {} final (entryTexts P lines) := by
  unfold verifyLines at hok
  cases hstate : verifyState P keys window lines with
  | error error =>
      rw [hstate] at hok
      cases hok
  | ok final =>
      rw [hstate] at hok
      simp only [Except.map, Except.ok.injEq, Prod.mk.injEq] at hok
      exact ⟨final, rfl, hok.1.symm, chainedFrom_of_verifyFrom P hstate⟩

theorem report_entries {keys : List VerifyingKey} {final : VerifyState}
    {entries : List String} (hchain : ChainedFrom P {} final entries) :
    (final.report keys).entries = entries.length := by
  simpa [VerifyState.report] using hchain.count

/-- Accepted lines without records report no root. -/
theorem report_root_eq_none_iff {keys : List VerifyingKey}
    {final : VerifyState} {entries : List String}
    (hchain : ChainedFrom P {} final entries) :
    (final.report keys).root = none ↔ entries = [] := by
  have hcount := hchain.count
  simp only [Nat.zero_add] at hcount
  rw [← List.length_eq_zero_iff, ← hcount]
  simp [VerifyState.report]

theorem report_root_of_ne_nil {keys : List VerifyingKey}
    {final : VerifyState} {entries : List String}
    (hchain : ChainedFrom P {} final entries) (hne : entries ≠ []) :
    (final.report keys).root =
      some (HashChain.head (chainLink P) genesis entries) := by
  have hcount := hchain.count
  simp only [Nat.zero_add] at hcount
  have hpos : 0 < entries.length := List.length_pos_iff.mpr hne
  simp only [VerifyState.report]
  rw [if_pos (by omega), hchain.head]

/-- The number in an accepted last entry is the count of those before it. -/
theorem ChainedFrom.seq_last {final : VerifyState} {entries : List String}
    {text : String} (hchain : ChainedFrom P {} final (entries ++ [text])) :
    ∃ entry, parseEntry P text = .ok entry ∧
      entry.seq = entries.length := by
  obtain ⟨entry, hentry, hseq⟩ := hchain.seq entries.length text (by simp)
  exact ⟨entry, hentry, by simpa using hseq⟩

/-- Two accepted chains with one head are one chain. -/
theorem entries_eq_of_report_root {keys keys' : List VerifyingKey}
    {final final' : VerifyState} {entries entries' : List String}
    (hchain : ChainedFrom P {} final entries)
    (hchain' : ChainedFrom P {} final' entries')
    (hapart : HashChain.Apart (chainLink P)
      (HashChain.inputs (chainLink P) genesis entries)
      (HashChain.inputs (chainLink P) genesis entries'))
    (hroot : (final.report keys).root = (final'.report keys').root) :
    entries = entries' := by
  rcases List.eq_nil_or_concat' entries with rfl | ⟨init, text, rfl⟩
  · have hnone : (final.report keys).root = none :=
      (report_root_eq_none_iff P hchain).mpr rfl
    rw [hroot, report_root_eq_none_iff P hchain'] at hnone
    exact hnone.symm
  · rcases List.eq_nil_or_concat' entries' with rfl | ⟨init', text', rfl⟩
    · have hnone : (final'.report keys').root = none :=
        (report_root_eq_none_iff P hchain').mpr rfl
      rw [← hroot, report_root_eq_none_iff P hchain] at hnone
      exact hnone
    · rw [report_root_of_ne_nil P hchain (by simp),
        report_root_of_ne_nil P hchain' (by simp),
        Option.some.injEq] at hroot
      -- equal last entries carry equal numbers, hence equal lengths
      obtain ⟨htext, hprev, hrest⟩ := hapart.last hroot
      obtain ⟨entry, hentry, hseq⟩ := hchain.seq_last
      obtain ⟨entry', hentry', hseq'⟩ := hchain'.seq_last
      have hsame : entry = entry' := by
        rw [htext, hentry'] at hentry
        exact (Except.ok.inj hentry).symm
      have hlength : init.length = init'.length := by
        rw [← hseq, ← hseq', hsame]
      rw [htext, HashChain.eq_of_head_eq hlength hprev hrest]

/-- The reported root fixes the entries, the second reading finds the hash of
each counted record, and so a log that extends a checkpoint of an accepted
ledger holds that ledger's entries. -/
theorem tamper_evident :
    (∀ keys keys' window window' lines lines' report report' records records',
      verifyLines P keys window lines = .ok (report, records) →
      verifyLines P keys' window' lines' = .ok (report', records') →
      P.CollisionFree (chainInputs P lines ++ chainInputs P lines') →
      report.root = report'.root →
      report.entries = report'.entries ∧
        entryTexts P lines = entryTexts P lines') ∧
    ∀ keys window files report records torn,
      verifyPrefix P keys window files = .ok ((report, records), torn) →
      (∀ count ≤ report.entries, ∃ root,
        rootAtCount P files count = .ok (some root) ∧
        headAfter P (prefixLines files).1 count = some root) ∧
      ∀ cp later,
        headAfter P (prefixLines files).1 cp.count.toNat = some cp.root →
        P.CollisionFree (chainInputs P (prefixLines files).1 ++
          chainInputs P (prefixLines later).1) →
        ledgerExtendsCheckpointAt P later cp = .ok true →
        cp.count.toNat ≤ (entryTexts P (prefixLines later).1).length ∧
          (entryTexts P (prefixLines later).1).take cp.count.toNat =
            (entryTexts P (prefixLines files).1).take cp.count.toNat := by
  constructor
  · intro keys keys' window window' lines lines' report report' records
      records' hok hok' hfree hroot
    obtain ⟨final, _, rfl, hchain⟩ := verifyLines_eq_ok P hok
    obtain ⟨final', _, rfl, hchain'⟩ := verifyLines_eq_ok P hok'
    have hentries := entries_eq_of_report_root P hchain hchain'
      (apart_of_collisionFree P hfree) hroot
    refine ⟨?_, hentries⟩
    rw [report_entries P hchain, report_entries P hchain', hentries]
  · intro keys window files report records torn hbegins
    obtain ⟨final, hstate, rfl, rfl, rfl⟩ :=
      (verifyPrefix_eq_ok_iff P).mp hbegins
    have hchain := chainedFrom_of_verifyFrom P hstate
    constructor
    · intro count hcount
      rw [report_entries P hchain] at hcount
      have hlength : count <
          (genesis :: (recordsOf P (prefixLines files).1).map
            RecordIn.hash).length := by
        simpa [entryTexts, Nat.lt_succ_iff] using hcount
      refine ⟨_, ?_, List.getElem?_eq_getElem hlength⟩
      rw [rootAtCount_eq P count hstate, headAfter,
        List.getElem?_eq_getElem hlength]
    · intro cp later hhead hfree hextends
      have hroot := rootAtCount_eq P cp.count.toNat hstate
      rw [hhead] at hroot
      obtain ⟨hle, hown⟩ := head_of_rootAtCount P hroot
      obtain ⟨hle', hlater⟩ :=
        head_of_rootAtCount P (rootAtCount_of_extends P hextends)
      refine ⟨hle', ?_⟩
      have hapart := (apart_of_collisionFree P hfree).mono
        (HashChain.inputs_take_subset (chainLink P) genesis _
          cp.count.toNat)
        (HashChain.inputs_take_subset (chainLink P) genesis _
          cp.count.toNat)
      exact (HashChain.eq_of_head_eq (by simp [hle, hle'])
        (hown.symm.trans hlater) hapart).symm

/-! ## A ledger of one record -/

def sampleRecord : RecordOut :=
  sealRecord samplePlatform (sampleKey 1) (sampleEntry .null) genesis

def sampleLine : String :=
  sampleRecord.line samplePlatform

/-- A file that holds the sample record. -/
def sampleFile (path : String) : LedgerFile where
  path := path
  content := ByteText.encode sampleLine ++ [ByteText.newline]

theorem cut_sampleFile (path : String) :
    LineText.cut ByteText.newline (sampleFile path).content =
      ([ByteText.encode sampleLine], []) :=
  LineText.cut_line_append ByteText.newline
    (newline_notMem_line samplePlatform _) []

theorem decodeLine_sampleLine (path : String) :
    decodeLine path (ByteText.encode sampleLine) = .ok sampleLine := by
  obtain ⟨inside, hbraces⟩ := encode_line_braces samplePlatform sampleRecord
  apply decodeLine_encode
  rw [sampleLine, hbraces, ← List.cons_append, List.getLast?_concat]
  decide

theorem prefixLines_sampleFile (path : String) :
    prefixLines [sampleFile path] = ([.ok sampleLine], none) := by
  have hlines : prefixLines [sampleFile path] = _ :=
    prefixLines_single path (sampleFile path).content
  rw [hlines, scanTornTail_eq, cut_sampleFile]
  simp [decodeLine_sampleLine, untilUnread]

/-- What reading the sample record leaves, after some blank lines. -/
def sampleVerified (blanks : ℕ) : VerifyState :=
  VerifyState.afterSealed samplePlatform { index := blanks } (sampleKey 1)
    (sampleEntry .null)

theorem verifyFrom_sampleLine (blanks : ℕ) :
    verifyFrom samplePlatform [sampleKey 1] none { index := blanks }
        [.ok sampleLine] = .ok (sampleVerified blanks) := by
  rw [verifyFrom_singleton]
  exact verifyLine_sealRecord samplePlatform (List.mem_singleton.mpr rfl)
    (Or.inr rfl) (by decide) rfl

theorem verifyFrom_blank {keys : List VerifyingKey}
    {state : VerifyState} {lines : List (Except LedgerError String)} :
    verifyFrom samplePlatform keys none state (.ok "" :: lines) =
      verifyFrom samplePlatform keys none
        { state with index := state.index + 1 } lines := by
  have hblank : RustText.isBlank "" = true := by decide
  rw [verifyFrom_cons]
  simp only [verifyLine, hblank, if_true, bind, Except.bind]

theorem verifyState_blank_sampleLine :
    verifyState samplePlatform [sampleKey 1] none
        [.ok "", .ok sampleLine] = .ok (sampleVerified 1) :=
  verifyFrom_blank.trans (verifyFrom_sampleLine 1)

theorem verifyState_sampleFile (path : String) :
    verifyState samplePlatform [sampleKey 1] none
        (prefixLines [sampleFile path]).1 = .ok (sampleVerified 0) := by
  rw [prefixLines_sampleFile]
  exact verifyFrom_sampleLine 0

theorem recordsOf_sampleLine :
    recordsOf samplePlatform [.ok sampleLine] =
      [sampleRecord.stored samplePlatform] := by
  simp [recordsOf, sampleLine, line_not_blank, readRecord_line,
    Except.toOption]

theorem collisionFree_sampleLine :
    samplePlatform.CollisionFree
      (chainInputs samplePlatform [.ok sampleLine] ++
        chainInputs samplePlatform [.ok sampleLine]) := by
  rw [chainInputs, entryTexts, recordsOf_sampleLine]
  simp [Platform.CollisionFree]

theorem headAfter_sampleFile (path : String) :
    headAfter samplePlatform (prefixLines [sampleFile path]).1 1 =
      some sampleRecord.hash := by
  rw [prefixLines_sampleFile, headAfter, recordsOf_sampleLine]
  rfl

/-- A checkpoint of the sample ledger. -/
def sampleCheckpoint : Checkpoint where
  root := sampleRecord.hash
  count := 1
  tsMs := 0
  pubkeyHex := ""
  sigB64 := ""

theorem tamper_evident_sample :
    entryTexts samplePlatform [.ok sampleLine] =
        entryTexts samplePlatform [.ok "", .ok sampleLine] ∧
      (∃ root, rootAtCount samplePlatform [sampleFile "ledger"] 1 =
        .ok (some root)) ∧
      (entryTexts samplePlatform
          (prefixLines [sampleFile "copy"]).1).take 1 =
        (entryTexts samplePlatform
          (prefixLines [sampleFile "ledger"]).1).take 1 := by
  have hevident := tamper_evident samplePlatform
  have hbegins := (verifyPrefix_eq_ok_iff samplePlatform).mpr
    ⟨_, verifyState_sampleFile "ledger", rfl, rfl, rfl⟩
  obtain ⟨hcounts, hextends⟩ := hevident.2 _ _ _ _ _ _ hbegins
  refine ⟨?_, ?_, ?_⟩
  · have hspaced : entryTexts samplePlatform [.ok "", .ok sampleLine] =
        entryTexts samplePlatform [.ok sampleLine] :=
      entryTexts_blank samplePlatform (by decide)
    refine (hevident.1 _ _ _ _ _ _ _ _ _ _
      (verifyLines_of_verifyState samplePlatform (verifyFrom_sampleLine 0))
      (verifyLines_of_verifyState samplePlatform
        verifyState_blank_sampleLine) ?_ rfl).2
    rw [chainInputs, chainInputs, hspaced]
    exact collisionFree_sampleLine
  · obtain ⟨root, hroot, _⟩ := hcounts 1 (by decide)
    exact ⟨root, hroot⟩
  · refine (hextends sampleCheckpoint [sampleFile "copy"]
      (headAfter_sampleFile "ledger") ?_ ?_).2
    · rw [prefixLines_sampleFile, prefixLines_sampleFile]
      exact collisionFree_sampleLine
    · rw [ledgerExtendsCheckpointAt_eq samplePlatform _
        (verifyState_sampleFile "copy")]
      exact congrArg Except.ok (decide_eq_true (headAfter_sampleFile "copy"))

end Decern
