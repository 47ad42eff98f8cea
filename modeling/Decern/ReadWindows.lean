import Decern.JsonFuel
import Decern.LedgerTamper
import Decern.RecordReaders
import Mathlib.Tactic

/-!
# Windows of a verified ledger

The verifier numbers the records and passes over blank lines; the window
readers pass over lines.  A ledger the verifier accepts is compared with what
each reader gives of it, window by window.
-/

namespace Decern

open ByteText (Bytes)
open Serde (Value)

variable (P : Platform)

/-! ## The verified window -/

def usizeMax : ℕ := 2 ^ 64 - 1

/-- The whole chain, checked under a keyring, and a window of its records. -/
def readVerifiedWithKeys (location : Location) (keys : List VerifyingKey)
    (offset limit : ℕ) : Except LedgerError (VerifyReport × List Value) := do
  let files ← location
  verifyInner P keys (some ⟨offset, min (offset + limit) usizeMax⟩) files

/-- The same under one key, or with no signature checked. -/
def readVerified (location : Location) (pubkey : Option VerifyingKey)
    (offset limit : ℕ) : Except LedgerError (VerifyReport × List Value) := do
  let files ← location
  verifyInner P pubkey.toList (some ⟨offset, min (offset + limit) usizeMax⟩)
    files

/-- The lines of a ledger's files that are text. -/
def textLines (files : List LedgerFile) : List String :=
  (chainedLines files).filterMap Except.toOption

def notBlank (line : String) : Bool := !RustText.isBlank line

/-- The lines of a ledger's records, in the order they are numbered. -/
def recordLines (files : List LedgerFile) : List String :=
  (textLines files).filter notBlank

/-- The records of a window, as the verifier numbers them. -/
def numberedWindow (files : List LedgerFile) (offset limit : ℕ) :
    List String :=
  ((recordLines files).drop offset).take limit

/-- The three readers give the numbered records of a window, the verified one
under any key that verifies the ledger. -/
def WindowAgrees (files : List LedgerFile) (offset limit : ℕ) : Prop :=
  ∃ (values : List Value) (raws : List String),
    List.Forall₂ (fun line value => parseValue P line = some value)
      (numberedWindow files offset limit) values ∧
    List.Forall₂ (fun line raw => parseRaw line = some raw)
      (numberedWindow files offset limit) raws ∧
    Ledger.readRecords P (.ok files) offset limit = .ok values ∧
    Ledger.readRawRecords P (.ok files) offset limit = .ok raws ∧
    ∀ (pubkey : Option VerifyingKey) (report : VerifyReport),
      verifyWithKeys P pubkey.toList files = .ok report →
        readVerified P (.ok files) pubkey offset limit = .ok (report, values)

/-- No record follows a blank line. -/
def BlanksTrail (lines : List String) : Prop :=
  ∃ records blanks, lines = records ++ blanks ∧
    (∀ line ∈ records, notBlank line = true) ∧
    ∀ line ∈ blanks, notBlank line = false

/-- Every record is a value to the readers: none nests too deep for one. -/
def ReadsAsValues (files : List LedgerFile) : Prop :=
  ∀ line ∈ recordLines files, (parseValue P line).isSome

/-! ## Lines a verifier accepts -/

section Accepted

variable {P} {keys : List VerifyingKey} {window : Option ReadWindow}
  {state final : VerifyState} {lines : List (Except LedgerError String)}

/-- Accepted lines are text. -/
theorem exists_texts_of_verifyFrom
    (hok : verifyFrom P keys window state lines = .ok final) :
    ∃ texts : List String, lines = texts.map Except.ok := by
  induction lines generalizing state with
  | nil => exact ⟨[], rfl⟩
  | cons line rest ih =>
      rw [verifyFrom_cons] at hok
      cases line with
      | error error => cases hok
      | ok text =>
          obtain ⟨next, _, hrest⟩ := Serde.bind_eq_ok.mp hok
          obtain ⟨texts, rfl⟩ := ih hrest
          exact ⟨text :: texts, rfl⟩

/-- An accepted record is a value with an envelope. -/
theorem isSome_parseRaw_of_readRecord {line : String} {record : RecordIn}
    (hrecord : readRecord P line = .ok record) : (parseRaw line).isSome := by
  cases houtline : JsonText.readOutline line.toList with
  | none => simp [readRecord, houtline] at hrecord
  | some outline =>
      obtain ⟨raw, rest, hspanned, hblank⟩ :=
        JsonText.readSpanned_of_readOutline houtline
      simp [parseRaw, hspanned, hblank]

theorem verifyLine_blank {text : String} (hblank : notBlank text = false) :
    verifyLine P keys window state (.ok text) =
      .ok { state with index := state.index + 1 } := by
  have htext : RustText.isBlank text = true := by
    simpa [notBlank] using hblank
  simp [verifyLine, htext]

theorem verifyLine_notBlank {text : String} (htext : notBlank text = true) :
    verifyLine P keys window state (.ok text) =
      verifyRecord P keys window state text :=
  verifyLine_of_not_blank P keys window state (by
    simpa [notBlank] using htext)

/-- The verifier counts the lines that are not blank, and each is a record. -/
theorem count_of_verifyFrom {texts : List String}
    (hok : verifyFrom P keys window state (texts.map Except.ok) =
      .ok final) :
    final.count = state.count + (texts.filter notBlank).length ∧
      ∀ text ∈ texts.filter notBlank, (parseRaw text).isSome := by
  induction texts generalizing state with
  | nil =>
      cases hok
      simp
  | cons text rest ih =>
      rw [List.map_cons, verifyFrom_cons] at hok
      obtain ⟨next, hline, hrest⟩ := Serde.bind_eq_ok.mp hok
      obtain ⟨hcount, hraw⟩ := ih hrest
      cases htext : notBlank text with
      | false =>
          rw [verifyLine_blank htext] at hline
          cases hline
          rw [List.filter_cons, htext]
          exact ⟨hcount, hraw⟩
      | true =>
          rw [verifyLine_notBlank htext, verifyRecord_eq_ok_iff] at hline
          obtain ⟨record, signers, records, haccepted, _, rfl⟩ := hline
          rw [List.filter_cons, htext, if_pos rfl, List.forall_mem_cons]
          refine ⟨?_, isSome_parseRaw_of_readRecord haccepted.read, hraw⟩
          rw [hcount, List.length_cons]
          simp only [VerifyState.after]
          omega

end Accepted

/-! ## The verifier's window -/

section Window

variable {P} {keys : List VerifyingKey} {state final : VerifyState}

/-- What a window holds of values numbered from a start. -/
def windowFrom (window : ReadWindow) (start : ℕ) (values : List Value) :
    List Value :=
  (values.take (window.stop - start)).drop (window.offset - start)

theorem windowFrom_cons (window : ReadWindow) (start : ℕ) (value : Value)
    (values : List Value) :
    windowFrom window start (value :: values) =
      (if window.offset ≤ start ∧ start < window.stop then [value] else []) ++
        windowFrom window (start + 1) values := by
  unfold windowFrom
  by_cases hstop : start < window.stop
  · have htake : window.stop - start = window.stop - (start + 1) + 1 := by
      omega
    rw [htake, List.take_succ_cons]
    by_cases hoffset : window.offset ≤ start
    · have hzero : window.offset - start = 0 := by omega
      have hnext : window.offset - (start + 1) = 0 := by omega
      simp [hoffset, hstop, hzero, hnext]
    · have hdrop : window.offset - start =
          window.offset - (start + 1) + 1 := by omega
      rw [hdrop]
      simp [hoffset]
  · have hnone : window.stop - start = 0 := by omega
    have hnext : window.stop - (start + 1) = 0 := by omega
    simp [hstop, hnone, hnext]

/-- The state with other records collected. -/
def VerifyState.collecting (state : VerifyState) (records : List Value) :
    VerifyState :=
  { state with records }

theorem verifyRecord_collecting (window : ReadWindow) {text : String}
    {value : Value} {next : VerifyState} (records : List Value)
    (hvalue : parseValue P text = some value)
    (hok : verifyRecord P keys none state text = .ok next) :
    verifyRecord P keys (some window) (state.collecting records) text =
      .ok (next.collecting (records ++
        if window.offset ≤ state.count ∧ state.count < window.stop
          then [value] else [])) := by
  obtain ⟨record, signers, kept, haccepted, _, rfl⟩ :=
    (verifyRecord_eq_ok_iff P _ _ _ _ _).mp hok
  have hsame : Accepted P keys (state.collecting records) text record
      signers :=
    { read := haccepted.read
      entry := haccepted.entry
      prev := haccepted.prev
      hash := haccepted.hash
      signature := haccepted.signature }
  refine (verifyRecord_eq_ok_iff P _ _ _ _ _).mpr
    ⟨record, signers, _, hsame, ?_, rfl⟩
  have hcount : (state.collecting records).count = state.count := rfl
  have hrecords : (state.collecting records).records = records := rfl
  simp only [materialize, hcount, hrecords, hvalue]
  split_ifs <;> simp

/-- A verification with a window accepts what one without accepts, and
collects the window's records. -/
theorem verifyFrom_window {texts : List String} {values : List Value}
    (window : ReadWindow) (records : List Value)
    (hvalues : List.Forall₂ (fun line value =>
      parseValue P line = some value) (texts.filter notBlank) values)
    (hok : verifyFrom P keys none state (texts.map Except.ok) =
      .ok final) :
    verifyFrom P keys (some window) (state.collecting records)
        (texts.map Except.ok) =
      .ok (final.collecting
        (records ++ windowFrom window state.count values)) := by
  induction texts generalizing state values records with
  | nil =>
      cases hvalues
      cases hok
      simp [verifyFrom, windowFrom, pure, Except.pure]
  | cons text rest ih =>
      rw [List.map_cons, verifyFrom_cons] at hok ⊢
      obtain ⟨next, hline, hrest⟩ := Serde.bind_eq_ok.mp hok
      cases htext : notBlank text with
      | false =>
          rw [verifyLine_blank htext] at hline ⊢
          cases hline
          rw [List.filter_cons, htext] at hvalues
          exact ih records hvalues hrest
      | true =>
          rw [verifyLine_notBlank htext] at hline ⊢
          rw [List.filter_cons, htext, if_pos rfl] at hvalues
          cases hvalues with
          | @cons _ value _ values hvalue hothers =>
              have hnext := verifyRecord_collecting window records hvalue
                hline
              have hcount : next.count = state.count + 1 := by
                obtain ⟨record, signers, kept, _, _, rfl⟩ :=
                  (verifyRecord_eq_ok_iff P _ _ _ _ _).mp hline
                rfl
              rw [hnext, windowFrom_cons, ← List.append_assoc, ← hcount]
              exact ih _ hothers hrest

end Window

/-! ## The readers' windows -/

section Readers

variable {P} {α : Type} {read : String → Option α} {limit : ℕ}

/-- A reader passes over blank lines. -/
theorem readWindow_filter (texts : List String) (out : List α) :
    readWindow P read limit out (texts.map Except.ok) =
      readWindow P read limit out
        ((texts.filter notBlank).map Except.ok) := by
  induction texts generalizing out with
  | nil => rfl
  | cons text rest ih =>
      cases htext : notBlank text with
      | false =>
          have hblank : RustText.isBlank text = true := by
            simpa [notBlank] using htext
          rw [List.filter_cons, htext, List.map_cons, readWindow]
          by_cases hfull : limit ≤ out.length
          · rw [if_pos hfull]
            cases rest.filter notBlank with
            | nil => simp [readWindow]
            | cons other others => simp [readWindow, hfull]
          · rw [if_neg hfull]
            simp only [hblank, if_true]
            exact ih out
      | true =>
          have hnot : RustText.isBlank text = false := by
            simpa [notBlank] using htext
          rw [List.filter_cons, htext, if_pos rfl, List.map_cons,
            List.map_cons, readWindow, readWindow]
          by_cases hfull : limit ≤ out.length
          · rw [if_pos hfull, if_pos hfull]
          · rw [if_neg hfull, if_neg hfull]
            simp only [hnot, Bool.false_eq_true, if_false]
            cases read text with
            | none => rfl
            | some value => exact ih _

theorem forall₂_notBlank {texts : List String} {values : List α}
    (hblank : ∀ line ∈ texts, RustText.isBlank line = false)
    (hread : List.Forall₂ (fun line value => read line = some value)
      texts values) :
    List.Forall₂ (fun line value =>
      RustText.isBlank line = false ∧ read line = some value) texts values := by
  induction hread with
  | nil => exact .nil
  | cons hfirst _ ih =>
      rw [List.forall_mem_cons] at hblank
      exact .cons ⟨hblank.1, hfirst⟩ (ih hblank.2)

/-- A window over lines that all read gives the first of them. -/
theorem readWindow_texts {texts : List String} {values : List α}
    (hread : List.Forall₂ (fun line value => read line = some value)
      (texts.filter notBlank) values) :
    readWindow P read limit [] (texts.map Except.ok) =
      .ok (values.take limit) := by
  have hblank : ∀ line ∈ texts.filter notBlank,
      RustText.isBlank line = false := by
    intro line hline
    simpa [notBlank] using (List.mem_filter.mp hline).2
  have hall := @readWindow_ok P α read limit _ _
    (forall₂_notBlank hblank hread) [] [] (Or.inl rfl)
  rw [readWindow_filter]
  simpa using hall

theorem exists_forall₂_of_isSome {lines : List String}
    (hsome : ∀ line ∈ lines, (read line).isSome) :
    ∃ values, List.Forall₂ (fun line value => read line = some value) lines
      values := by
  induction lines with
  | nil => exact ⟨[], .nil⟩
  | cons line rest ih =>
      rw [List.forall_mem_cons] at hsome
      obtain ⟨value, hvalue⟩ := Option.isSome_iff_exists.mp hsome.1
      obtain ⟨values, hvalues⟩ := ih hsome.2
      exact ⟨value :: values, .cons hvalue hvalues⟩

theorem isSome_of_forall₂ {lines : List String} {values : List α}
    (hread : List.Forall₂ (fun line value => read line = some value) lines
      values) : ∀ line ∈ lines, (read line).isSome := by
  induction hread with
  | nil => simp
  | cons hfirst _ ih =>
      rw [List.forall_mem_cons]
      exact ⟨Option.isSome_iff_exists.mpr ⟨_, hfirst⟩, ih⟩

end Readers

/-! ## The agreement -/

section Agreement

variable {P} {keys : List VerifyingKey} {files : List LedgerFile}
  {report : VerifyReport}

/-- An accepted ledger has no torn tail, and the verifier read every line. -/
theorem verifyState_of_verifyWithKeys
    (haccepted : verifyWithKeys P keys files = .ok report) :
    (prefixLines files).2 = none ∧ ∃ state,
      verifyState P keys none (chainedLines files) = .ok state ∧
      report = state.report keys := by
  unfold verifyWithKeys verifyInner verifyPrefix verifyLines at haccepted
  cases hstate : verifyState P keys none (prefixLines files).1 with
  | error error => simp [hstate, Except.map] at haccepted
  | ok state =>
      cases htorn : (prefixLines files).2 with
      | some offset => simp [hstate, htorn, Except.map] at haccepted
      | none =>
          have hlines := fst_prefixLines htorn
          rw [hlines] at hstate
          refine ⟨rfl, state, hstate, ?_⟩
          simpa [hstate, htorn, hlines, Except.map, eq_comm]
            using haccepted

/-- Lines that verify, with no torn tail, are an accepted ledger. -/
theorem verifyWithKeys_of_verifyState {state : VerifyState}
    {lines : List (Except LedgerError String)}
    (hlines : prefixLines files = (lines, none))
    (hstate : verifyState P keys none lines = .ok state) :
    verifyWithKeys P keys files = .ok (state.report keys) := by
  simp only [verifyWithKeys, verifyInner, verifyPrefix, verifyLines, hlines,
    hstate]
  rfl

theorem chainedLines_eq_map
    (haccepted : verifyWithKeys P keys files = .ok report) :
    chainedLines files = (textLines files).map Except.ok := by
  obtain ⟨_, state, hstate, _⟩ := verifyState_of_verifyWithKeys haccepted
  obtain ⟨texts, htexts⟩ : ∃ texts : List String,
      chainedLines files = texts.map Except.ok :=
    exists_texts_of_verifyFrom hstate
  have hsame : textLines files = texts := by
    rw [textLines, htexts, List.filterMap_map]
    exact List.filterMap_some
  rw [htexts, hsame]

theorem entries_eq_length
    (haccepted : verifyWithKeys P keys files = .ok report) :
    report.entries = (recordLines files).length ∧
      ∀ line ∈ recordLines files, (parseRaw line).isSome := by
  obtain ⟨_, state, hstate, rfl⟩ := verifyState_of_verifyWithKeys haccepted
  rw [chainedLines_eq_map haccepted] at hstate
  obtain ⟨hcount, hraw⟩ := count_of_verifyFrom hstate
  rw [Nat.zero_add] at hcount
  exact ⟨hcount, hraw⟩

theorem drop_chainedLines (offset : ℕ)
    (haccepted : verifyWithKeys P keys files = .ok report) :
    (chainedLines files).drop offset =
      ((textLines files).drop offset).map Except.ok := by
  rw [chainedLines_eq_map haccepted, List.map_drop]

/-- The readers give what lies past an offset, blank lines counted. -/
theorem readRecords_texts {values : List Value} (offset limit : ℕ)
    (haccepted : verifyWithKeys P keys files = .ok report)
    (hvalues : List.Forall₂ (fun line value => parseValue P line = some value)
      (((textLines files).drop offset).filter notBlank) values) :
    Ledger.readRecords P (.ok files) offset limit =
      .ok (values.take limit) := by
  have hlines := drop_chainedLines offset haccepted
  simp only [Ledger.readRecords, bind, Except.bind, hlines]
  exact readWindow_texts hvalues

theorem readRawRecords_texts {raws : List String} (offset limit : ℕ)
    (haccepted : verifyWithKeys P keys files = .ok report)
    (hraws : List.Forall₂ (fun line raw => parseRaw line = some raw)
      (((textLines files).drop offset).filter notBlank) raws) :
    Ledger.readRawRecords P (.ok files) offset limit =
      .ok (raws.take limit) := by
  have hlines := drop_chainedLines offset haccepted
  simp only [Ledger.readRawRecords, bind, Except.bind, hlines]
  exact readWindow_texts hraws

/-- The verified window holds the records by number. -/
theorem readVerifiedWithKeys_texts {values : List Value} (offset limit : ℕ)
    (haccepted : verifyWithKeys P keys files = .ok report)
    (hentries : report.entries < 2 ^ 64)
    (hvalues : List.Forall₂ (fun line value => parseValue P line = some value)
      (recordLines files) values) :
    readVerifiedWithKeys P (.ok files) keys offset limit =
      .ok (report, (values.drop offset).take limit) := by
  have hlength : values.length ≤ usizeMax := by
    rw [← hvalues.length_eq, ← (entries_eq_length haccepted).1, usizeMax]
    omega
  obtain ⟨htorn, state, hstate, rfl⟩ :=
    verifyState_of_verifyWithKeys haccepted
  rw [chainedLines_eq_map haccepted] at hstate
  have hwindow := verifyFrom_window
    ⟨offset, min (offset + limit) usizeMax⟩ [] hvalues hstate
  rw [← chainedLines_eq_map haccepted] at hwindow
  have hrecords : windowFrom ⟨offset, min (offset + limit) usizeMax⟩ 0 values =
      (values.drop offset).take limit := by
    rw [windowFrom, Nat.sub_zero, Nat.sub_zero, Nat.min_def]
    by_cases hshort : offset + limit ≤ usizeMax
    · rw [if_pos hshort, List.drop_take, Nat.add_sub_cancel_left]
    · rw [if_neg hshort, List.take_of_length_le hlength,
        List.take_of_length_le]
      rw [List.length_drop]
      omega
  have hlines := fst_prefixLines htorn
  simp only [readVerifiedWithKeys, verifyInner, verifyPrefix, verifyLines,
    bind, Except.bind, hlines, htorn]
  have hverified : verifyState P keys
      (some ⟨offset, min (offset + limit) usizeMax⟩) (chainedLines files) =
      .ok (state.collecting ((values.drop offset).take limit)) := by
    rw [← hrecords]
    exact hwindow
  rw [hverified]
  rfl

/-! ## Verification without a key -/

def VerifyState.unsigned (state : VerifyState) : VerifyState :=
  { state with signers := [] }

theorem verifyFrom_unsigned {state final : VerifyState}
    {lines : List (Except LedgerError String)}
    (hok : verifyFrom P keys none state lines = .ok final) :
    verifyFrom P [] none state.unsigned lines = .ok final.unsigned := by
  induction lines generalizing state with
  | nil =>
      cases hok
      rfl
  | cons line rest ih =>
      rw [verifyFrom_cons] at hok ⊢
      obtain ⟨next, hline, hrest⟩ := Serde.bind_eq_ok.mp hok
      have hnext : verifyLine P [] none state.unsigned line =
          .ok next.unsigned := by
        cases line with
        | error error => cases hline
        | ok text =>
            cases htext : notBlank text with
            | false =>
                rw [verifyLine_blank htext] at hline ⊢
                cases hline
                rfl
            | true =>
                rw [verifyLine_notBlank htext] at hline ⊢
                obtain ⟨record, signers, records, haccepted, hkept, rfl⟩ :=
                  (verifyRecord_eq_ok_iff P _ _ _ _ _).mp hline
                have hunsigned : Accepted P [] state.unsigned text record
                    [] :=
                  { read := haccepted.read
                    entry := haccepted.entry
                    prev := haccepted.prev
                    hash := haccepted.hash
                    signature := rfl }
                exact (verifyRecord_eq_ok_iff P _ _ _ _ _).mpr
                  ⟨record, [], records, hunsigned, hkept, rfl⟩
      rw [hnext]
      exact ih hrest

/-- A ledger that verifies under keys verifies as a chain. -/
theorem verifyWithKeys_none
    (haccepted : verifyWithKeys P keys files = .ok report) :
    ∃ chain, verifyWithKeys P [] files = .ok chain ∧
      chain.entries = report.entries ∧ chain.root = report.root := by
  obtain ⟨htorn, state, hstate, rfl⟩ :=
    verifyState_of_verifyWithKeys haccepted
  have hchain : verifyState P [] none (chainedLines files) =
      .ok state.unsigned := verifyFrom_unsigned hstate
  have hlines : prefixLines files = (chainedLines files, none) :=
    Prod.ext (fst_prefixLines htorn) htorn
  exact ⟨state.unsigned.report [], verifyWithKeys_of_verifyState hlines hchain,
    rfl, rfl⟩

/-! ## Blank lines -/

theorem filter_of_all {lines : List String}
    (hall : ∀ line ∈ lines, notBlank line = true) :
    lines.filter notBlank = lines :=
  List.filter_eq_self.mpr hall

theorem filter_of_none {lines : List String}
    (hnone : ∀ line ∈ lines, notBlank line = false) :
    lines.filter notBlank = [] := by
  rw [List.filter_eq_nil_iff]
  intro line hline
  simp [hnone line hline]

/-- Where the blank lines trail, skipping lines skips records. -/
theorem BlanksTrail.filter_drop {lines : List String}
    (htrail : BlanksTrail lines) (offset : ℕ) :
    (lines.drop offset).filter notBlank =
      (lines.filter notBlank).drop offset := by
  obtain ⟨records, blanks, rfl, hrecords, hblanks⟩ := htrail
  have hkept : ∀ line ∈ records.drop offset, notBlank line = true :=
    fun line hline => hrecords line (List.mem_of_mem_drop hline)
  have hgone : ∀ line ∈ blanks.drop (offset - records.length),
      notBlank line = false :=
    fun line hline => hblanks line (List.mem_of_mem_drop hline)
  rw [List.drop_append, List.filter_append, List.filter_append,
    filter_of_all hkept, filter_of_none hgone, filter_of_all hrecords,
    filter_of_none hblanks, List.append_nil, List.append_nil]

/-- Lines whose blanks do not trail: a blank one, and a record after it. -/
theorem exists_of_not_blanksTrail {lines : List String}
    (htrail : ¬BlanksTrail lines) :
    ∃ records blank rest, lines = records ++ blank :: rest ∧
      (∀ line ∈ records, notBlank line = true) ∧
      notBlank blank = false ∧ rest.filter notBlank ≠ [] := by
  induction lines with
  | nil => exact absurd ⟨[], [], rfl, by simp, by simp⟩ htrail
  | cons line lines ih =>
      cases hline : notBlank line with
      | false =>
          refine ⟨[], line, lines, rfl, by simp, hline, ?_⟩
          intro hnone
          refine htrail ⟨[], line :: lines, rfl, by simp, ?_⟩
          rw [List.forall_mem_cons]
          refine ⟨hline, fun other hother => ?_⟩
          simpa using List.filter_eq_nil_iff.mp hnone other hother
      | true =>
          have hrest : ¬BlanksTrail lines := by
            rintro ⟨records, blanks, rfl, hrecords, hblanks⟩
            refine htrail ⟨line :: records, blanks, rfl, ?_, hblanks⟩
            rw [List.forall_mem_cons]
            exact ⟨hline, hrecords⟩
          obtain ⟨records, blank, rest, rfl, hrecords, hblank, hafter⟩ :=
            ih hrest
          refine ⟨line :: records, blank, rest, rfl, ?_, hblank, hafter⟩
          rw [List.forall_mem_cons]
          exact ⟨hline, hrecords⟩

/-- A window of an accepted ledger agrees where the blanks trail. -/
theorem windowAgrees_of_blanksTrail (offset limit : ℕ)
    (haccepted : verifyWithKeys P keys files = .ok report)
    (hentries : report.entries < 2 ^ 64)
    (htrail : BlanksTrail (textLines files))
    (hreads : ReadsAsValues P files) :
    WindowAgrees P files offset limit := by
  obtain ⟨values, hvalues⟩ := exists_forall₂_of_isSome hreads
  obtain ⟨hlength, hraw⟩ := entries_eq_length haccepted
  obtain ⟨raws, hraws⟩ := exists_forall₂_of_isSome hraw
  have hdropped : ((textLines files).drop offset).filter notBlank =
      (recordLines files).drop offset := htrail.filter_drop offset
  refine ⟨(values.drop offset).take limit, (raws.drop offset).take limit,
    List.forall₂_take limit (List.forall₂_drop offset hvalues),
    List.forall₂_take limit (List.forall₂_drop offset hraws), ?_, ?_, ?_⟩
  · apply readRecords_texts offset limit haccepted
    rw [hdropped]
    exact List.forall₂_drop offset hvalues
  · apply readRawRecords_texts offset limit haccepted
    rw [hdropped]
    exact List.forall₂_drop offset hraws
  · intro pubkey verified hverified
    have hcount : verified.entries = report.entries := by
      rw [hlength, (entries_eq_length hverified).1]
    exact readVerifiedWithKeys_texts offset limit hverified (hcount ▸ hentries)
      hvalues

/-- A blank line before a record puts a record into a window it is not
numbered in. -/
theorem blanksTrail_of_windowAgrees
    (haccepted : verifyWithKeys P keys files = .ok report)
    (hentries : report.entries < 2 ^ 64)
    (hreads : ReadsAsValues P files)
    (hagrees : ∀ offset limit, offset < 2 ^ 64 → limit < 2 ^ 64 →
      WindowAgrees P files offset limit) :
    BlanksTrail (textLines files) := by
  by_contra htrail
  obtain ⟨records, blank, rest, hlines, hrecords, hblank, hafter⟩ :=
    exists_of_not_blanksTrail htrail
  have hnumbered : recordLines files = records ++ rest.filter notBlank := by
    rw [recordLines, hlines, List.filter_append, List.filter_cons, hblank,
      filter_of_all hrecords]
    simp
  have hskipped : (textLines files).drop (records.length + 1) = rest := by
    rw [hlines, List.drop_append]
    simp
  have hlength := (entries_eq_length haccepted).1
  rw [hnumbered, List.length_append] at hlength
  have hpositive := List.length_pos_of_ne_nil hafter
  have hrest : ∀ line ∈ rest.filter notBlank, (parseValue P line).isSome := by
    intro line hline
    apply hreads
    rw [hnumbered]
    exact List.mem_append_right _ hline
  obtain ⟨values, hvalues⟩ := exists_forall₂_of_isSome hrest
  obtain ⟨given, _, hgiven, _, hread, _⟩ :=
    hagrees (records.length + 1) report.entries (by omega) hentries
  rw [readRecords_texts _ _ haccepted
    (by rw [hskipped]; exact hvalues)] at hread
  have hsame : values.take report.entries = given := Except.ok.inj hread
  have htaken := hgiven.length_eq
  rw [← hsame, numberedWindow, hnumbered] at htaken
  have hvaluesLength := hvalues.length_eq
  simp only [List.length_take, List.length_drop, List.length_append]
    at htaken
  omega

/-- Every window of a ledger agrees with its verification exactly when no
record follows a blank line and every record is a value. -/
theorem windows_agree_iff
    (haccepted : verifyWithKeys P keys files = .ok report)
    (hentries : report.entries < 2 ^ 64) :
    (∀ offset limit, offset < 2 ^ 64 → limit < 2 ^ 64 →
        WindowAgrees P files offset limit) ↔
      BlanksTrail (textLines files) ∧ ReadsAsValues P files := by
  constructor
  · intro hagrees
    have hreads : ReadsAsValues P files := by
      obtain ⟨values, _, hvalues, _⟩ :=
        hagrees 0 report.entries (by omega) hentries
      rw [numberedWindow, List.drop_zero, (entries_eq_length haccepted).1,
        List.take_length] at hvalues
      exact isSome_of_forall₂ hvalues
    exact ⟨blanksTrail_of_windowAgrees haccepted hentries hreads hagrees,
      hreads⟩
  · rintro ⟨htrail, hreads⟩ offset limit _ _
    exact windowAgrees_of_blanksTrail offset limit haccepted hentries htrail
      hreads

end Agreement

/-! ## A ledger of one record -/

theorem notBlank_sampleLine : notBlank sampleLine = true := by
  simp [notBlank, sampleLine, line_not_blank]

theorem parseValue_sampleLine :
    (parseValue samplePlatform sampleLine).isSome := by
  apply (parseValue_line_isSome_iff samplePlatform sampleRecord ?_).mpr
  · decide
  · decide

theorem entries_sampleVerified (blanks : ℕ) (keys : List VerifyingKey) :
    ((sampleVerified blanks).report keys).entries < 2 ^ 64 := by
  have hone : ((sampleVerified blanks).report keys).entries = 1 := rfl
  rw [hone]
  decide

theorem verifyWithKeys_sampleFile :
    verifyWithKeys samplePlatform [sampleKey 1] [sampleFile "ledger"] =
      .ok ((sampleVerified 0).report [sampleKey 1]) := by
  have hstate := verifyState_sampleFile "ledger"
  rw [prefixLines_sampleFile] at hstate
  exact verifyWithKeys_of_verifyState (prefixLines_sampleFile "ledger") hstate

theorem windows_agree_iff_sample :
    (∀ offset limit, offset < 2 ^ 64 → limit < 2 ^ 64 →
        WindowAgrees samplePlatform [sampleFile "ledger"] offset limit) ↔
      BlanksTrail (textLines [sampleFile "ledger"]) ∧
        ReadsAsValues samplePlatform [sampleFile "ledger"] :=
  windows_agree_iff verifyWithKeys_sampleFile (entries_sampleVerified 0 _)

/-- The sample record after a blank line. -/
def spacedFile : LedgerFile where
  path := "ledger"
  content := ByteText.newline :: (sampleFile "ledger").content

theorem prefixLines_spacedFile :
    prefixLines [spacedFile] = ([.ok "", .ok sampleLine], none) := by
  have hlines : prefixLines [spacedFile] = _ :=
    prefixLines_single "ledger" spacedFile.content
  have hcut : LineText.cut ByteText.newline spacedFile.content =
      ([[], ByteText.encode sampleLine], []) := by
    rw [spacedFile, LineText.cut_sep_cons, cut_sampleFile]
  have hempty : decodeLine "ledger" [] = .ok "" := rfl
  rw [hlines, scanTornTail_eq, hcut]
  simp [decodeLine_sampleLine, hempty, untilUnread]

theorem textLines_spacedFile : textLines [spacedFile] = ["", sampleLine] := by
  have hlines : (prefixLines [spacedFile]).1 = chainedLines [spacedFile] :=
    fst_prefixLines (by rw [prefixLines_spacedFile])
  rw [textLines, ← hlines, prefixLines_spacedFile]
  rfl

theorem not_windows_agree_spaced :
    ∃ report,
      verifyWithKeys samplePlatform [sampleKey 1] [spacedFile] = .ok report ∧
      report.entries < 2 ^ 64 ∧
      ReadsAsValues samplePlatform [spacedFile] ∧
      ¬WindowAgrees samplePlatform [spacedFile] 1 1 := by
  have htexts := textLines_spacedFile
  have haccepted :
      verifyWithKeys samplePlatform [sampleKey 1] [spacedFile] =
        .ok ((sampleVerified 1).report [sampleKey 1]) :=
    verifyWithKeys_of_verifyState prefixLines_spacedFile
      verifyState_blank_sampleLine
  have hblank : notBlank "" = false := by decide
  have hrecords : recordLines [spacedFile] = [sampleLine] := by
    simp [recordLines, htexts, hblank, notBlank_sampleLine]
  obtain ⟨value, hvalue⟩ :=
    Option.isSome_iff_exists.mp parseValue_sampleLine
  refine ⟨_, haccepted, entries_sampleVerified 1 _, ?_, ?_⟩
  · intro line hline
    rw [hrecords, List.mem_singleton] at hline
    rw [hline]
    exact parseValue_sampleLine
  · rintro ⟨values, raws, hvalues, _, hread, _⟩
    have hgiven := @readRecords_texts samplePlatform _ _ _ [value] 1 1
      haccepted (by simpa [htexts, notBlank_sampleLine] using hvalue)
    rw [hgiven] at hread
    cases hread
    simp [numberedWindow, hrecords] at hvalues

end Decern
