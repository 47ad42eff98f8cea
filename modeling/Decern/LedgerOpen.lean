import Decern.LedgerAnchor
import Mathlib.Tactic

/-!
# Opening a ledger

An open verifies the prefix, holds it against the anchor, judges the signing
key and only then cuts a torn tail.  Each of the passes over the file reads
the prefix alone, so the outcome depends on the prefix, the anchor, the key
and the first byte of the tail.
-/

namespace Decern

open ByteText (Bytes newline)
open LineText (cut terminatedPrefix)
open Serde (Value)

variable (P : Platform)

/-! ## Verifying files -/

/-- The key that followed `kid`, when another key signed after it. -/
def VerifyReport.supersededBy (report : VerifyReport) (kid : String) :
    Option SignerSpan :=
  Succession.successor report.signers kid

/-- The records before any torn fragment, verified, and where it starts. -/
def verifyPrefix (keys : List VerifyingKey) (window : Option ReadWindow)
    (files : List LedgerFile) :
    Except LedgerError ((VerifyReport × List Value) × Option ℕ) :=
  match verifyLines P keys window (prefixLines files).1 with
  | .error error => .error error
  | .ok verified => .ok (verified, (prefixLines files).2)

def lastPath (files : List LedgerFile) : String :=
  match files.getLast? with
  | some file => file.path
  | none => ""

def verifyInner (keys : List VerifyingKey) (window : Option ReadWindow)
    (files : List LedgerFile) :
    Except LedgerError (VerifyReport × List Value) :=
  match verifyPrefix P keys window files with
  | .error error => .error error
  | .ok (verified, none) => .ok verified
  | .ok (verified, some offset) =>
      .error (.tornTail verified.1.entries verified.1.root (lastPath files)
        offset)

def verifyWithKeys (keys : List VerifyingKey) (files : List LedgerFile) :
    Except LedgerError VerifyReport :=
  (verifyInner P keys none files).map Prod.fst

/-! ## Faults -/

/-- The steps of an open at which the system can report an error. -/
inductive OpenSite where
  | create
  | lock
  | read
  | heal
  | sync
  | append
  deriving DecidableEq, Repr

structure OpenFault where
  site : OpenSite
  err : String

def failsAt (fault : Option OpenFault) (site : OpenSite) : Option String :=
  fault.bind fun fault =>
    if fault.site = site then some fault.err else none

@[simp] theorem failsAt_none (site : OpenSite) : failsAt none site = none :=
  rfl

/-! ## The head an open adopts -/

/-- The anchor a file holds, refused unless a ledger key signed it. -/
def trustedAnchor (anchor : Option Bytes) (verifiers : List VerifyingKey) :
    Except LedgerError (Option Checkpoint) :=
  match loadAnchor P anchor with
  | .error error => .error error
  | .ok none => .ok none
  | .ok (some cp) =>
      if verifiers.any (verifyCheckpointSig P cp) then .ok (some cp)
      else
        .error (.tamper cp.count.toNat ("anchor signature is not from a " ++
          "trusted ledger key (forged or wrong-key anchor)"))

/-- The anchor's part of an open; `anchor` is absent when none is asked for,
and holds no bytes when its file does not exist. -/
def consultAnchor (files : List LedgerFile) (verifiers : List VerifyingKey)
    (torn : Option ℕ) (anchor : Option (Option Bytes)) :
    Except LedgerError Unit :=
  match anchor with
  | none => .ok ()
  | some anchor =>
      match trustedAnchor P anchor verifiers with
      | .error error => .error error
      | .ok none => .ok ()
      | .ok (some cp) =>
          match ledgerExtendsCheckpointAt P files cp with
          | .error error => .error error
          | .ok true => .ok ()
          | .ok false =>
              let why := if torn.isSome then
                  "ledger no longer extends its anchor at count " ++
                    toString cp.count.toNat ++ " — the trailing record is " ++
                    "unterminated AND the verified prefix is below the last " ++
                    "committed height (acked history truncated, not a crash " ++
                    "tail)"
                else
                  "ledger no longer extends its anchor at count " ++
                    toString cp.count.toNat ++ " — truncated or rewritten " ++
                    "below the last committed height"
              .error (.tamper cp.count.toNat why)

/-- Whether a torn fragment begins as a record does. -/
def beginsARecord (content : Bytes) (offset : ℕ) : Bool :=
  (content.drop offset).head? == some 123

/-- Everything an open checks before it writes. -/
def judgeOpenHead (files : List LedgerFile) (verifiers : List VerifyingKey)
    (signer : VerifyingKey) (anchor : Option (Option Bytes)) :
    Except LedgerError (VerifyReport × Option ℕ) :=
  match verifyPrefix P verifiers none files with
  | .error error => .error error
  | .ok ((report, _), torn) =>
      match consultAnchor P files verifiers torn anchor with
      | .error error => .error error
      | .ok () =>
          match report.supersededBy (keyFingerprint signer) with
          | some next =>
              .error (.keySuperseded (keyFingerprint signer)
                ("key " ++ next.kid ++ " signed after it, from seq " ++
                  toString next.firstSeq ++
                  "; open the log with that key or a later one"))
          | none => .ok (report, torn)

/-- Cuts the last file at the end of its terminated lines. -/
def healTornTail (fault : Option OpenFault) (path : String)
    (content : Bytes) (offset : ℕ) : Bytes × Except LedgerError Unit :=
  match failsAt fault .heal with
  | some err => (content, .error (.io path err))
  | none =>
      match failsAt fault .sync with
      | some err => (content.take offset, .error (.io path err))
      | none => (content.take offset, .ok ())

/-- The report an open adopts, and the last file's content as it leaves it. -/
def resolveOpenHead (fault : Option OpenFault) (earlier : List LedgerFile)
    (path : String) (content : Bytes) (verifiers : List VerifyingKey)
    (signer : VerifyingKey) (anchor : Option (Option Bytes)) :
    Bytes × Except LedgerError VerifyReport :=
  match failsAt fault .read with
  | some err => (content, .error (.io path err))
  | none =>
      match judgeOpenHead P (earlier ++ [⟨path, content⟩]) verifiers signer
          anchor with
      | .error error => (content, .error error)
      | .ok (report, none) => (content, .ok report)
      | .ok (report, some offset) =>
          if beginsARecord content offset then
            match healTornTail fault path content offset with
            | (healed, .error error) => (healed, .error error)
            | (healed, .ok ()) => (healed, .ok report)
          else
            (content, .error (.tamper report.entries
              ("the unterminated last line of " ++ path ++ " does not begin " ++
                "a ledger record; refusing to truncate a file that may not " ++
                "be a ledger")))

/-! ## The single-file ledger -/

/-- Where the code runs: on Unix the writer lock is on the ledger itself. -/
inductive Target where
  | unix
  | windows
  deriving DecidableEq, Repr

/-- An open ledger: the head it appends to, its key and its keyring. -/
structure Ledger where
  key : SigningKey
  lastHash : String
  nextSeq : ℕ
  verifiers : List VerifyingKey
  signers : List SignerSpan
  sync : Bool
  failed : Bool

/-- The keyring of a signing key and the retired ones. -/
def keyring (key : SigningKey) (retired : List VerifyingKey) :
    List VerifyingKey :=
  if P.verifyingKey key ∈ retired then retired
  else retired ++ [P.verifyingKey key]

/-- The file once the writer's lock is asked for. -/
def lockSingleWriter (target : Target) (fault : Option OpenFault)
    (path : String) (file : Option Bytes) :
    Option Bytes × Except LedgerError Unit :=
  match failsAt fault .create with
  | some err => (file, .error (.io path err))
  | none =>
      let file := match target with
        | .unix => some (file.getD [])
        | .windows => file
      match failsAt fault .lock with
      | some err => (file, .error (.io path err))
      | none => (file, .ok ())

/-- An anchored open of a ledger with no file. -/
def refuseRemovedHistory (anchor : Option (Option Bytes))
    (verifiers : List VerifyingKey) : Except LedgerError Unit :=
  match anchor with
  | none => .ok ()
  | some anchor =>
      match trustedAnchor P anchor verifiers with
      | .error error => .error error
      | .ok none => .ok ()
      | .ok (some cp) =>
          if 0 < cp.count then
            .error (.tamper cp.count.toNat
              ("ledger no longer extends its anchor at count " ++
                toString cp.count.toNat ++ ": its file is gone"))
          else .ok ()

/-- The handle on a head. -/
def Ledger.opened (key : SigningKey) (verifiers : List VerifyingKey)
    (root : Option String) (entries : ℕ) (signers : List SignerSpan) :
    Ledger where
  key := key
  lastHash := root.getD genesis
  nextSeq := entries
  verifiers := verifiers
  signers := signers
  sync := false
  failed := false

/-- The file after an open, and the handle it gives. -/
def openSingleInner (target : Target) (fault : Option OpenFault)
    (path : String) (file : Option Bytes) (key : SigningKey)
    (retired : List VerifyingKey) (anchor : Option (Option Bytes)) :
    Option Bytes × Except LedgerError Ledger :=
  let verifiers := keyring P key retired
  match lockSingleWriter target fault path file with
  | (file, .error error) => (file, .error error)
  | (some content, .ok ()) =>
      match resolveOpenHead P fault [] path content verifiers
          (P.verifyingKey key) anchor with
      | (content, .error error) => (some content, .error error)
      | (content, .ok report) =>
          match failsAt fault .append with
          | some err => (some content, .error (.io path err))
          | none =>
              (some content, .ok (Ledger.opened key verifiers report.root
                report.entries report.signers))
  | (none, .ok ()) =>
      match refuseRemovedHistory P anchor verifiers with
      | .error error => (none, .error error)
      | .ok () =>
          match failsAt fault .append with
          | some err => (none, .error (.io path err))
          | none => (some [], .ok (Ledger.opened key verifiers none 0 []))

/-! ## What the checks come to -/

/-- What an open asks of its anchor: when the file exists it parses, a key of
the ring signed it, and the prefix has its root at its count. -/
def AnchorHolds (verifiers : List VerifyingKey)
    (lines : List (Except LedgerError String))
    (anchor : Option (Option Bytes)) : Prop :=
  ∀ bytes, anchor = some (some bytes) →
    ∃ cp, loadAnchor P (some bytes) = .ok (some cp) ∧
      (∃ key ∈ verifiers, verifyCheckpointSig P cp key = true) ∧
      headAfter P lines cp.count.toNat = some cp.root

theorem loadAnchor_some_ne_none (bytes : Bytes) :
    loadAnchor P (some bytes) ≠ .ok none := by
  unfold loadAnchor
  split
  case h_1 heq => cases heq
  case h_2 =>
    split
    case h_1 => simp
    case h_2 => split <;> simp

/-- Over a prefix that verifies, consulting the anchor passes exactly when it
holds. -/
theorem consultAnchor_eq_ok_iff {files : List LedgerFile}
    {verifiers : List VerifyingKey} {window : Option ReadWindow}
    {final : VerifyState} (torn : Option ℕ) (anchor : Option (Option Bytes))
    (hok : verifyState P verifiers window (prefixLines files).1 = .ok final) :
    consultAnchor P files verifiers torn anchor = .ok () ↔
      AnchorHolds P verifiers (prefixLines files).1 anchor := by
  unfold consultAnchor AnchorHolds
  rcases anchor with _ | _ | bytes
  · simp
  · simp [trustedAnchor, loadAnchor]
  · simp only [Option.some.injEq, forall_eq', trustedAnchor]
    cases hload : loadAnchor P (some bytes) with
    | error error => simp
    | ok found =>
        cases found with
        | none => exact absurd hload (loadAnchor_some_ne_none P bytes)
        | some cp =>
            by_cases htrusted : ∃ key ∈ verifiers,
                verifyCheckpointSig P cp key = true
            · have hany : verifiers.any (verifyCheckpointSig P cp) = true := by
                simpa using htrusted
              simp only [hany, if_true,
                ledgerExtendsCheckpointAt_eq P cp hok]
              by_cases hhead : headAfter P (prefixLines files).1
                  cp.count.toNat = some cp.root
              · simp only [hhead, decide_true]
                exact iff_of_true trivial ⟨cp, rfl, htrusted, hhead⟩
              · simp only [hhead, decide_false]
                apply iff_of_false (by simp)
                rintro ⟨other, hother, _, hroot⟩
                cases hother
                exact hhead hroot
            · have hany : verifiers.any (verifyCheckpointSig P cp) =
                  false := by
                simpa using htrusted
              simp only [hany]
              apply iff_of_false (by simp)
              rintro ⟨other, hother, hkey, _⟩
              cases hother
              exact htrusted hkey

theorem verifyPrefix_eq_ok_iff {keys : List VerifyingKey}
    {window : Option ReadWindow} {files : List LedgerFile}
    {report : VerifyReport} {records : List Value} {torn : Option ℕ} :
    verifyPrefix P keys window files = .ok ((report, records), torn) ↔
      ∃ state, verifyState P keys window (prefixLines files).1 = .ok state ∧
        report = state.report keys ∧ records = state.records ∧
        torn = (prefixLines files).2 := by
  unfold verifyPrefix verifyLines
  cases hstate : verifyState P keys window (prefixLines files).1 with
  | error error => simp [Except.map]
  | ok state => simp [Except.map, eq_comm, and_assoc]

/-- The judgement passes exactly when each of its parts does. -/
theorem judgeOpenHead_eq_ok_iff {files : List LedgerFile}
    {verifiers : List VerifyingKey} {signer : VerifyingKey}
    {anchor : Option (Option Bytes)} {report : VerifyReport}
    {torn : Option ℕ} :
    judgeOpenHead P files verifiers signer anchor = .ok (report, torn) ↔
      ∃ state,
        verifyState P verifiers none (prefixLines files).1 = .ok state ∧
        AnchorHolds P verifiers (prefixLines files).1 anchor ∧
        Succession.successor state.signers (keyFingerprint signer) = none ∧
        report = state.report verifiers ∧ torn = (prefixLines files).2 := by
  unfold judgeOpenHead
  cases hverify : verifyPrefix P verifiers none files with
  | error error =>
      apply iff_of_false (by simp)
      rintro ⟨state, hstate, _⟩
      have hok := (verifyPrefix_eq_ok_iff P).mpr
        ⟨state, hstate, rfl, rfl, rfl⟩
      rw [hverify] at hok
      cases hok
  | ok verified =>
      obtain ⟨⟨found, records⟩, start⟩ := verified
      obtain ⟨state, hstate, rfl, rfl, rfl⟩ :=
        (verifyPrefix_eq_ok_iff P).mp hverify
      have hanchor := consultAnchor_eq_ok_iff P (prefixLines files).2 anchor
        hstate
      simp only
      cases hconsult : consultAnchor P files verifiers (prefixLines files).2
          anchor with
      | error error =>
          rw [hconsult] at hanchor
          apply iff_of_false (by simp)
          rintro ⟨_, _, hholds, _⟩
          cases hanchor.mpr hholds
      | ok done =>
          rw [hconsult] at hanchor
          have hholds := hanchor.mp rfl
          simp only [VerifyReport.supersededBy, VerifyState.report]
          constructor
          · intro hjudge
            split at hjudge
            case h_1 => cases hjudge
            case h_2 hnone =>
              cases hjudge
              exact ⟨state, hstate, hholds, hnone, rfl, rfl⟩
          · rintro ⟨other, hother, _, hnone, rfl, rfl⟩
            rw [hstate] at hother
            cases hother
            rw [hnone]

theorem judgeOpenHead_isOk_iff {files : List LedgerFile}
    {verifiers : List VerifyingKey} {signer : VerifyingKey}
    {anchor : Option (Option Bytes)} :
    (∃ judged, judgeOpenHead P files verifiers signer anchor = .ok judged) ↔
      ∃ state,
        verifyState P verifiers none (prefixLines files).1 = .ok state ∧
        AnchorHolds P verifiers (prefixLines files).1 anchor ∧
        Succession.successor state.signers (keyFingerprint signer) = none := by
  constructor
  · rintro ⟨⟨report, torn⟩, hjudge⟩
    obtain ⟨state, hstate, hanchor, hnone, _, _⟩ :=
      (judgeOpenHead_eq_ok_iff P).mp hjudge
    exact ⟨state, hstate, hanchor, hnone⟩
  · rintro ⟨state, hstate, hanchor, hnone⟩
    exact ⟨_, (judgeOpenHead_eq_ok_iff P).mpr
      ⟨state, hstate, hanchor, hnone, rfl, rfl⟩⟩

/-! ## The law of an anchored open -/

theorem terminatedPrefix_length_drop (content : Bytes) :
    content.drop (terminatedPrefix newline content).length =
      (cut newline content).2 := by
  have hsplit := LineText.terminatedPrefix_append_tail newline content
  calc
    content.drop (terminatedPrefix newline content).length =
        (terminatedPrefix newline content ++ (cut newline content).2).drop
          (terminatedPrefix newline content).length := by rw [hsplit]
    _ = (cut newline content).2 := List.drop_left

theorem terminatedPrefix_length_take (content : Bytes) :
    content.take (terminatedPrefix newline content).length =
      terminatedPrefix newline content :=
  (List.prefix_iff_eq_take.mp
    (LineText.terminatedPrefix_isPrefix newline content)).symm

/-- The prefix of a single file is judged alone. -/
theorem prefixLines_terminatedPrefix (path : String) (content : Bytes) :
    prefixLines [⟨path, terminatedPrefix newline content⟩] =
      ((prefixLines [⟨path, content⟩]).1, none) := by
  rw [prefixLines_single, prefixLines_single, scanTornTail_eq]
  simp

/-- The torn tail is the last file's. -/
theorem prefixLines_append_snd (earlier : List LedgerFile)
    (file : LedgerFile) :
    (prefixLines (earlier ++ [file])).2 =
      if (cut newline file.content).2 = [] then none
      else some (terminatedPrefix newline file.content).length := by
  rw [← scanTornTail_eq]
  simp [prefixLines]

theorem judgeOpenHead_terminatedPrefix {path : String} {content : Bytes}
    {verifiers : List VerifyingKey} {signer : VerifyingKey}
    {anchor : Option (Option Bytes)} {report : VerifyReport}
    {torn : Option ℕ}
    (hjudge : judgeOpenHead P [⟨path, content⟩] verifiers signer anchor =
      .ok (report, torn)) :
    judgeOpenHead P [⟨path, terminatedPrefix newline content⟩] verifiers
        signer anchor = .ok (report, none) := by
  rw [judgeOpenHead_eq_ok_iff] at hjudge ⊢
  obtain ⟨state, hstate, hanchor, hnone, hreport, _⟩ := hjudge
  rw [prefixLines_terminatedPrefix]
  exact ⟨state, hstate, hanchor, hnone, hreport, rfl⟩

/-- Without a fault, an open adopts the prefix when the judgement passes and
the tail begins as a record does, and otherwise leaves the file. -/
theorem resolveOpenHead_unfaulted (earlier : List LedgerFile) (path : String)
    (content : Bytes) (verifiers : List VerifyingKey) (signer : VerifyingKey)
    (anchor : Option (Option Bytes)) :
    (∃ report torn,
      judgeOpenHead P (earlier ++ [⟨path, content⟩]) verifiers signer
          anchor = .ok (report, torn) ∧
      ((cut newline content).2 = [] ∨
        (cut newline content).2.head? = some 123) ∧
      resolveOpenHead P none earlier path content verifiers signer anchor =
        (terminatedPrefix newline content, .ok report)) ∨
    (¬ ((∃ judged,
        judgeOpenHead P (earlier ++ [⟨path, content⟩]) verifiers signer
          anchor = .ok judged) ∧
        ((cut newline content).2 = [] ∨
          (cut newline content).2.head? = some 123)) ∧
      ∃ error,
        resolveOpenHead P none earlier path content verifiers signer
          anchor = (content, .error error)) := by
  unfold resolveOpenHead
  simp only [failsAt_none]
  cases hjudge : judgeOpenHead P (earlier ++ [⟨path, content⟩]) verifiers
      signer anchor with
  | error error => simp
  | ok judged =>
      obtain ⟨report, torn⟩ := judged
      obtain ⟨_, _, _, _, _, htorn⟩ := (judgeOpenHead_eq_ok_iff P).mp hjudge
      rw [prefixLines_append_snd] at htorn
      by_cases htail : (cut newline content).2 = []
      · rw [if_pos htail] at htorn
        subst htorn
        have hself : terminatedPrefix newline content = content :=
          (LineText.terminatedPrefix_eq_self_iff newline content).mpr htail
        exact Or.inl ⟨report, none, rfl, Or.inl htail, by rw [hself]⟩
      · rw [if_neg htail] at htorn
        subst htorn
        have hbegins : beginsARecord content
            (terminatedPrefix newline content).length =
              ((cut newline content).2.head? == some 123) := by
          rw [beginsARecord, terminatedPrefix_length_drop]
        by_cases hbrace : (cut newline content).2.head? = some 123
        · apply Or.inl
          refine ⟨report, _, rfl, Or.inr hbrace, ?_⟩
          simp [hbegins, hbrace, healTornTail, terminatedPrefix_length_take]
        · apply Or.inr
          constructor
          · rintro ⟨_, htail' | hbrace'⟩
            · exact htail htail'
            · exact hbrace hbrace'
          · simp [hbegins, hbrace]

theorem openSingleInner_some (target : Target) (path : String)
    (content : Bytes) (key : SigningKey) (retired : List VerifyingKey)
    (anchor : Option (Option Bytes)) :
    openSingleInner P target none path (some content) key retired anchor =
      match resolveOpenHead P none [] path content (keyring P key retired)
          (P.verifyingKey key) anchor with
      | (content, .error error) => (some content, .error error)
      | (content, .ok report) =>
          (some content, .ok (Ledger.opened key (keyring P key retired)
            report.root report.entries report.signers)) := by
  unfold openSingleInner lockSingleWriter
  cases target <;> simp

theorem verifyWithKeys_terminatedPrefix (path : String) (content : Bytes)
    (verifiers : List VerifyingKey) (report : VerifyReport) :
    verifyWithKeys P verifiers [⟨path, terminatedPrefix newline content⟩] =
        .ok report ↔
      ∃ state, verifyState P verifiers none
        (prefixLines [⟨path, content⟩]).1 = .ok state ∧
        report = state.report verifiers := by
  unfold verifyWithKeys verifyInner verifyPrefix verifyLines
  rw [prefixLines_terminatedPrefix]
  cases verifyState P verifiers none (prefixLines [⟨path, content⟩]).1 with
  | error error => simp [Except.map]
  | ok state => simp [Except.map, eq_comm]

/-- An open succeeds exactly when the terminated prefix verifies, the anchor
holds over it, the signing key has not been followed in it and what comes
after it begins as a record; it then leaves that prefix, which opens again
as it is, and a refusal leaves the file alone. -/
theorem open_anchored_law (target : Target) (path : String) (content : Bytes)
    (key : SigningKey) (retired : List VerifyingKey)
    (anchor : Option (Option Bytes)) :
    ((∃ ledger, (openSingleInner P target none path (some content) key
        retired anchor).2 = .ok ledger) ↔
      ∃ report,
        verifyWithKeys P (keyring P key retired)
          [⟨path, terminatedPrefix newline content⟩] = .ok report ∧
        AnchorHolds P (keyring P key retired)
          (prefixLines [⟨path, terminatedPrefix newline content⟩]).1 anchor ∧
        report.supersededBy (keyFingerprint (P.verifyingKey key)) = none ∧
        ((cut newline content).2 = [] ∨
          (cut newline content).2.head? = some 123)) ∧
    (∀ ledger, (openSingleInner P target none path (some content) key
        retired anchor).2 = .ok ledger →
      (openSingleInner P target none path (some content) key retired
        anchor).1 = some (terminatedPrefix newline content) ∧
      openSingleInner P target none path
          (some (terminatedPrefix newline content)) key retired anchor =
        (some (terminatedPrefix newline content), .ok ledger)) ∧
    (∀ error, (openSingleInner P target none path (some content) key
        retired anchor).2 = .error error →
      (openSingleInner P target none path (some content) key retired
        anchor).1 = some content) := by
  simp only [openSingleInner_some]
  rcases resolveOpenHead_unfaulted P [] path content (keyring P key retired)
      (P.verifyingKey key) anchor with
    ⟨report, torn, hjudge, htail, hresolve⟩ | ⟨hrefused, error, hresolve⟩
  · obtain ⟨state, hstate, hanchor, hnone, rfl, _⟩ :=
      (judgeOpenHead_eq_ok_iff P).mp hjudge
    rw [hresolve]
    refine ⟨iff_of_true ⟨_, rfl⟩ ?_, ?_, ?_⟩
    · refine ⟨state.report (keyring P key retired),
        (verifyWithKeys_terminatedPrefix P path content _ _).mpr
          ⟨state, hstate, rfl⟩, ?_, hnone, htail⟩
      rw [prefixLines_terminatedPrefix]
      exact hanchor
    · intro ledger hledger
      have hagain := judgeOpenHead_terminatedPrefix P hjudge
      have hsecond : resolveOpenHead P none [] path
          (terminatedPrefix newline content) (keyring P key retired)
          (P.verifyingKey key) anchor =
            (terminatedPrefix newline content,
              .ok (state.report (keyring P key retired))) := by
        unfold resolveOpenHead
        simp only [failsAt_none, List.nil_append, hagain]
      rw [hsecond]
      exact ⟨rfl, by cases hledger; rfl⟩
    · intro error herror
      cases herror
  · rw [hresolve]
    refine ⟨iff_of_false (by simp) ?_, ?_, fun _ _ => rfl⟩
    · rintro ⟨report, hverify, hanchor, hnone, htail⟩
      obtain ⟨state, hstate, rfl⟩ :=
        (verifyWithKeys_terminatedPrefix P path content _ _).mp hverify
      rw [prefixLines_terminatedPrefix] at hanchor
      exact hrefused ⟨(judgeOpenHead_isOk_iff P).mpr
        ⟨state, hstate, hanchor, hnone⟩, htail⟩
    · intro ledger hledger
      cases hledger

end Decern
