import Decern.LedgerFiles
import Decern.Succession
import Mathlib.Tactic

/-!
# Verifying a ledger

The verifier reads stored lines in order and recomputes the chain, each
record's signature and the succession of signing keys.  One record is judged
against the state the records before it left, so a history is accepted
exactly when each of its lines is.
-/

namespace Decern

open ByteText (Bytes)
open Serde (Value)

variable (P : Platform)

/-- No text hashes to the digest that stands for an empty ledger. -/
def Platform.NoGenesisDigest : Prop :=
  ∀ bytes, HexText.encode (P.sha256 bytes) ≠ genesis

/-- A run of records signed by one key. -/
abbrev SignerSpan := Succession.Span String

structure VerifyReport where
  entries : ℕ
  root : Option String
  signaturesChecked : Bool
  signers : List SignerSpan
  deriving DecidableEq, Repr

/-- The records a verification hands back: those numbered from `offset` up to
`stop`. -/
structure ReadWindow where
  offset : ℕ
  stop : ℕ

/-! ## One record's signature -/

def toSignature (bytes : Bytes) : Option Signature :=
  if h : bytes.length = 64 then some ⟨bytes.toArray, by simpa using h⟩
  else none

def signatureInvalid : String :=
  "signature invalid (chain rewritten with a different key?)"

/-- The key whose signature verifies: the one the record names, or whichever
key of the ring verifies a record that names none. -/
def recordSigner (keys : List VerifyingKey) (hash : Bytes) (sig : Signature)
    (kid : Option String) : Except String String :=
  match kid with
  | some kid =>
      match keys.find? fun key => keyFingerprint key == kid with
      | some key =>
          if P.verifyStrict key hash sig then .ok kid
          else .error signatureInvalid
      | none =>
          .error ("record signed by key " ++ kid ++
            ", which is not in the trusted keyring")
  | none =>
      match keys.find? fun key => P.verifyStrict key hash sig with
      | some key => .ok (keyFingerprint key)
      | none => .error signatureInvalid

/-- The succession rule for the key of one more record. -/
def succeed (signers : List SignerSpan) (signer : String) (seq : ℕ) :
    Except String (List SignerSpan) :=
  if Succession.current signers = some signer then .ok signers
  else
    match Succession.successor signers signer with
    | some next =>
        .error ("record signed by key " ++ signer ++ ", which key " ++
          next.kid ++ " succeeded at seq " ++ toString next.firstSeq)
    | none => .ok (signers ++ [⟨signer, seq⟩])

def checkSigner (signers : List SignerSpan) (keys : List VerifyingKey)
    (seq : ℕ) (hash : Bytes) (sigB64 : String) (kid : Option String) :
    Except String (List SignerSpan) :=
  match P.decodeBase64 sigB64 with
  | none => .error "unparseable signature"
  | some bytes =>
      match toSignature bytes with
      | none => .error "signature length"
      | some sig =>
          match recordSigner P keys hash sig kid with
          | .error why => .error why
          | .ok signer => succeed signers signer seq

/-! ## One line -/

/-- What the lines read so far leave behind. -/
structure VerifyState where
  index : ℕ := 0
  prev : String := genesis
  count : ℕ := 0
  signers : List SignerSpan := []
  records : List Value := []

/-- The signature check, made when there is a keyring. -/
def checkSignature (keys : List VerifyingKey) (state : VerifyState)
    (record : RecordIn) : Except String (List SignerSpan) :=
  if keys.isEmpty then .ok state.signers
  else
    checkSigner P state.signers keys state.count
      (chainHash P (ByteText.encode record.entry) record.prev)
      record.sigB64 record.kid

/-- The records a window has after one more. -/
def materialize (window : Option ReadWindow) (state : VerifyState)
    (line : String) : Except LedgerError (List Value) :=
  match window with
  | none => .ok state.records
  | some window =>
      if window.offset ≤ state.count ∧ state.count < window.stop then
        match parseValue P line with
        | some value => .ok (state.records ++ [value])
        | none => .error (.serde (P.serdeMessage .unreadable))
      else .ok state.records

/-- The state after an accepted record. -/
def VerifyState.after (state : VerifyState) (record : RecordIn)
    (signers : List SignerSpan) (records : List Value) : VerifyState where
  index := state.index + 1
  prev := record.hash
  count := state.count + 1
  signers := signers
  records := records

/-- The checks of one record. -/
def verifyRecord (keys : List VerifyingKey) (window : Option ReadWindow)
    (state : VerifyState) (line : String) :
    Except LedgerError VerifyState :=
  match readRecord P line with
  | .error error =>
      .error (.tamper state.index
        ("unparseable record: " ++ P.serdeMessage error))
  | .ok record =>
      match parseEntry P record.entry with
      | .error error =>
          .error (.tamper state.count
            ("unparseable entry: " ++ P.serdeMessage error))
      | .ok entry =>
          if entry.seq ≠ state.count then
            .error (.tamper state.count
              ("sequence break (found seq " ++ toString entry.seq ++ ")"))
          else if record.prev ≠ state.prev then
            .error (.tamper state.count ("broken chain link (prev " ++
              "mismatch — record edited, moved or removed)"))
          else if HexText.encode (chainHash P
              (ByteText.encode record.entry) record.prev) ≠ record.hash then
            .error (.tamper state.count "entry altered (hash mismatch)")
          else
            match checkSignature P keys state record with
            | .error why => .error (.tamper state.count why)
            | .ok signers =>
                match materialize P window state line with
                | .error error => .error error
                | .ok records => .ok (state.after record signers records)

def verifyLine (keys : List VerifyingKey) (window : Option ReadWindow)
    (state : VerifyState) (line : Except LedgerError String) :
    Except LedgerError VerifyState :=
  match line with
  | .error error => .error error
  | .ok line =>
      if RustText.isBlank line then
        .ok { state with index := state.index + 1 }
      else verifyRecord P keys window state line

def verifyState (keys : List VerifyingKey) (window : Option ReadWindow)
    (lines : List (Except LedgerError String)) :
    Except LedgerError VerifyState :=
  lines.foldlM (verifyLine P keys window) {}

def VerifyState.report (state : VerifyState) (keys : List VerifyingKey) :
    VerifyReport where
  entries := state.count
  root := if state.count > 0 then some state.prev else none
  signaturesChecked := !keys.isEmpty
  signers := state.signers

def verifyLines (keys : List VerifyingKey) (window : Option ReadWindow)
    (lines : List (Except LedgerError String)) :
    Except LedgerError (VerifyReport × List Value) :=
  (verifyState P keys window lines).map fun state =>
    (state.report keys, state.records)

/-! ## What one accepted record says -/

/-- A record accepted after a state, and the signers it leaves. -/
structure Accepted (keys : List VerifyingKey) (state : VerifyState)
    (line : String) (record : RecordIn) (signers : List SignerSpan) :
    Prop where
  read : readRecord P line = .ok record
  entry : ∃ entry, parseEntry P record.entry = .ok entry ∧
    entry.seq = state.count
  prev : record.prev = state.prev
  hash : HexText.encode
    (chainHash P (ByteText.encode record.entry) record.prev) = record.hash
  signature : checkSignature P keys state record = .ok signers

/-- One record is accepted exactly when every check passes. -/
theorem verifyRecord_eq_ok_iff (keys : List VerifyingKey)
    (window : Option ReadWindow) (state next : VerifyState) (line : String) :
    verifyRecord P keys window state line = .ok next ↔
      ∃ record signers records,
        Accepted P keys state line record signers ∧
        materialize P window state line = .ok records ∧
        next = state.after record signers records := by
  constructor
  · intro hok
    unfold verifyRecord at hok
    split at hok
    case h_1 => cases hok
    case h_2 record hread =>
      split at hok
      case h_1 => cases hok
      case h_2 entry hentry =>
        split at hok
        case isTrue => cases hok
        case isFalse hseq =>
          split at hok
          case isTrue => cases hok
          case isFalse hprev =>
            split at hok
            case isTrue => cases hok
            case isFalse hhash =>
              split at hok
              case h_1 => cases hok
              case h_2 signers hsigners =>
                split at hok
                case h_1 => cases hok
                case h_2 records hrecords =>
                  cases hok
                  exact ⟨record, signers, records,
                    { read := hread
                      entry := ⟨entry, hentry, not_not.mp hseq⟩
                      prev := not_not.mp hprev
                      hash := not_not.mp hhash
                      signature := hsigners }, hrecords, rfl⟩
  · rintro ⟨record, signers, records, haccepted, hrecords, rfl⟩
    obtain ⟨entry, hentry, hseq⟩ := haccepted.entry
    unfold verifyRecord
    simp only [haccepted.read, hentry, hseq, haccepted.prev,
      haccepted.signature, hrecords, ne_eq, not_true_eq_false, if_false]
    rw [← haccepted.prev, haccepted.hash]
    simp

theorem verifyLine_of_not_blank (keys : List VerifyingKey)
    (window : Option ReadWindow) (state : VerifyState) {line : String}
    (hline : RustText.isBlank line = false) :
    verifyLine P keys window state (.ok line) =
      verifyRecord P keys window state line := by
  simp [verifyLine, hline]

/-- The succession rule admits exactly the keys the rule of succession
does. -/
theorem succeed_eq_ok_iff (signers next : List SignerSpan) (signer : String)
    (seq : ℕ) :
    succeed signers signer seq = .ok next ↔
      Succession.Admits signers signer ∧
        next = Succession.extend signers signer seq := by
  unfold succeed Succession.Admits Succession.extend
  by_cases hcurrent : Succession.current signers = some signer
  · simp [hcurrent, eq_comm]
  · simp only [hcurrent, if_false, false_or]
    cases hnext : Succession.successor signers signer with
    | none => simp [eq_comm]
    | some span => simp

/-! ## A larger keyring -/

theorem find?_append_of_eq_some {keys more : List VerifyingKey}
    {p : VerifyingKey → Bool} {key : VerifyingKey}
    (hkey : keys.find? p = some key) :
    (keys ++ more).find? p = some key := by
  rw [List.find?_append, hkey]
  rfl

theorem recordSigner_append {keys more : List VerifyingKey} {hash : Bytes}
    {sig : Signature} {kid : Option String} {signer : String}
    (hsigner : recordSigner P keys hash sig kid = .ok signer) :
    recordSigner P (keys ++ more) hash sig kid = .ok signer := by
  unfold recordSigner at hsigner ⊢
  split at hsigner
  case h_1 kid =>
    split at hsigner
    case h_1 key hkey => simpa [find?_append_of_eq_some hkey] using hsigner
    case h_2 => cases hsigner
  case h_2 =>
    split at hsigner
    case h_1 key hkey => simpa [find?_append_of_eq_some hkey] using hsigner
    case h_2 => cases hsigner

theorem checkSigner_append {signers next : List SignerSpan}
    {keys more : List VerifyingKey} {seq : ℕ} {hash : Bytes}
    {sigB64 : String} {kid : Option String}
    (hok : checkSigner P signers keys seq hash sigB64 kid = .ok next) :
    checkSigner P signers (keys ++ more) seq hash sigB64 kid = .ok next := by
  unfold checkSigner at hok ⊢
  split at hok
  case h_1 => cases hok
  case h_2 bytes hbytes =>
    split at hok
    case h_1 => cases hok
    case h_2 sig hsig =>
      split at hok
      case h_1 => cases hok
      case h_2 signer hsigner =>
        simp only [recordSigner_append P hsigner]
        exact hok

theorem Accepted.append {keys more : List VerifyingKey} (hkeys : keys ≠ [])
    {state : VerifyState} {line : String} {record : RecordIn}
    {signers : List SignerSpan}
    (haccepted : Accepted P keys state line record signers) :
    Accepted P (keys ++ more) state line record signers where
  read := haccepted.read
  entry := haccepted.entry
  prev := haccepted.prev
  hash := haccepted.hash
  signature := by
    have hsigned := haccepted.signature
    unfold checkSignature at hsigned ⊢
    rw [if_neg (by simpa using hkeys)] at hsigned
    rw [if_neg (by simp [hkeys])]
    exact checkSigner_append P hsigned

theorem verifyLine_append {keys more : List VerifyingKey} (hkeys : keys ≠ [])
    {window : Option ReadWindow} {state next : VerifyState}
    {line : Except LedgerError String}
    (hok : verifyLine P keys window state line = .ok next) :
    verifyLine P (keys ++ more) window state line = .ok next := by
  cases line with
  | error error => cases hok
  | ok line =>
      unfold verifyLine at hok ⊢
      simp only at hok ⊢
      split
      case isTrue hblank => simpa [hblank] using hok
      case isFalse hblank =>
        rw [if_neg hblank, verifyRecord_eq_ok_iff] at hok
        rw [verifyRecord_eq_ok_iff]
        obtain ⟨record, signers, records, haccepted, hrest⟩ := hok
        exact ⟨record, signers, records, haccepted.append P hkeys, hrest⟩

/-! ## Reading on -/

/-- Lines read from any state. -/
def verifyFrom (keys : List VerifyingKey) (window : Option ReadWindow)
    (state : VerifyState) (lines : List (Except LedgerError String)) :
    Except LedgerError VerifyState :=
  lines.foldlM (verifyLine P keys window) state

/-- The verifier stops at a line it cannot read. -/
@[simp] theorem verifyFrom_untilUnread (keys : List VerifyingKey)
    (window : Option ReadWindow) (state : VerifyState)
    (lines : List (Except LedgerError String)) :
    verifyFrom P keys window state (untilUnread lines) =
      verifyFrom P keys window state lines := by
  induction lines generalizing state with
  | nil => rfl
  | cons line rest ih =>
      cases line with
      | error error => rfl
      | ok line =>
          simp only [verifyFrom, untilUnread, List.foldlM_cons] at ih ⊢
          simp only [ih]

@[simp] theorem verifyState_untilUnread (keys : List VerifyingKey)
    (window : Option ReadWindow) (lines : List (Except LedgerError String)) :
    verifyState P keys window (untilUnread lines) =
      verifyState P keys window lines :=
  verifyFrom_untilUnread P keys window {} lines

theorem verifyState_single (keys : List VerifyingKey)
    (window : Option ReadWindow) (path : String) (content : Bytes) :
    verifyState P keys window (prefixLines [⟨path, content⟩]).1 =
      verifyState P keys window
        ((LineText.cut ByteText.newline content).1.map
          (decodeLine path)) := by
  rw [prefixLines_single, verifyState_untilUnread]

theorem verifyState_append (keys : List VerifyingKey)
    (window : Option ReadWindow) (left right : List (Except LedgerError String)) :
    verifyState P keys window (left ++ right) =
      verifyState P keys window left >>= fun state =>
        verifyFrom P keys window state right := by
  simp [verifyState, verifyFrom, List.foldlM_append]

theorem verifyFrom_cons (keys : List VerifyingKey)
    (window : Option ReadWindow) (state : VerifyState)
    (line : Except LedgerError String)
    (lines : List (Except LedgerError String)) :
    verifyFrom P keys window state (line :: lines) =
      verifyLine P keys window state line >>= fun next =>
        verifyFrom P keys window next lines := by
  simp [verifyFrom]

theorem verifyFrom_singleton (keys : List VerifyingKey)
    (window : Option ReadWindow) (state : VerifyState)
    (line : Except LedgerError String) :
    verifyFrom P keys window state [line] =
      verifyLine P keys window state line := by
  rw [verifyFrom_cons]
  cases verifyLine P keys window state line <;> rfl

theorem verifyFrom_append_keys {keys more : List VerifyingKey}
    (hkeys : keys ≠ []) {window : Option ReadWindow}
    {state final : VerifyState} {lines : List (Except LedgerError String)}
    (hok : verifyFrom P keys window state lines = .ok final) :
    verifyFrom P (keys ++ more) window state lines = .ok final := by
  induction lines generalizing state with
  | nil => exact hok
  | cons line rest ih =>
      rw [verifyFrom_cons] at hok ⊢
      cases hline : verifyLine P keys window state line with
      | error error =>
          rw [hline] at hok
          cases hok
      | ok next =>
          rw [hline] at hok
          rw [verifyLine_append P hkeys hline]
          exact ih hok

/-- Lines a keyring accepts, a longer one accepts with the same result. -/
theorem verifyState_append_keys {keys more : List VerifyingKey}
    (hkeys : keys ≠ []) {window : Option ReadWindow} {final : VerifyState}
    {lines : List (Except LedgerError String)}
    (hok : verifyState P keys window lines = .ok final) :
    verifyState P (keys ++ more) window lines = .ok final :=
  verifyFrom_append_keys P hkeys hok

/-! ## What every reading keeps -/

/-- Every key signs one run of the records read, and the head is the last
record's digest. -/
structure VerifyState.WellFormed (state : VerifyState) : Prop where
  nodup : (Succession.kids state.signers).Nodup
  empty : state.count = 0 → state.prev = genesis
  digest : 0 < state.count →
    ∃ bytes, state.prev = HexText.encode (P.sha256 bytes)

theorem checkSigner_nodup {signers next : List SignerSpan}
    {keys : List VerifyingKey} {seq : ℕ} {hash : Bytes} {sigB64 : String}
    {kid : Option String} (hnodup : (Succession.kids signers).Nodup)
    (hok : checkSigner P signers keys seq hash sigB64 kid = .ok next) :
    (Succession.kids next).Nodup := by
  unfold checkSigner at hok
  split at hok
  case h_1 => cases hok
  case h_2 =>
    split at hok
    case h_1 => cases hok
    case h_2 =>
      split at hok
      case h_1 => cases hok
      case h_2 =>
        obtain ⟨hadmits, rfl⟩ := (succeed_eq_ok_iff _ _ _ _).mp hok
        exact Succession.extend_nodup hnodup hadmits seq

theorem verifyLine_wellFormed {keys : List VerifyingKey}
    {window : Option ReadWindow} {state next : VerifyState}
    {line : Except LedgerError String} (hstate : state.WellFormed P)
    (hok : verifyLine P keys window state line = .ok next) :
    next.WellFormed P := by
  cases line with
  | error error => cases hok
  | ok line =>
      unfold verifyLine at hok
      simp only at hok
      split at hok
      case isTrue =>
        cases hok
        exact ⟨hstate.nodup, hstate.empty, hstate.digest⟩
      case isFalse =>
        obtain ⟨record, signers, records, haccepted, _, rfl⟩ :=
          (verifyRecord_eq_ok_iff P _ _ _ _ _).mp hok
        constructor
        · have hsigned := haccepted.signature
          unfold checkSignature at hsigned
          split at hsigned
          case isTrue =>
            cases hsigned
            exact hstate.nodup
          case isFalse => exact checkSigner_nodup P hstate.nodup hsigned
        · intro hzero
          exact absurd hzero (Nat.succ_ne_zero _)
        · intro _
          exact ⟨_, haccepted.hash.symm⟩

theorem verifyFrom_wellFormed {keys : List VerifyingKey}
    {window : Option ReadWindow} {state final : VerifyState}
    {lines : List (Except LedgerError String)} (hstate : state.WellFormed P)
    (hok : verifyFrom P keys window state lines = .ok final) :
    final.WellFormed P := by
  induction lines generalizing state with
  | nil =>
      cases hok
      exact hstate
  | cons line rest ih =>
      rw [verifyFrom_cons] at hok
      cases hline : verifyLine P keys window state line with
      | error error =>
          rw [hline] at hok
          cases hok
      | ok next =>
          rw [hline] at hok
          exact ih (verifyLine_wellFormed P hstate hline) hok

theorem verifyState_wellFormed {keys : List VerifyingKey}
    {window : Option ReadWindow} {final : VerifyState}
    {lines : List (Except LedgerError String)}
    (hok : verifyState P keys window lines = .ok final) :
    final.WellFormed P :=
  verifyFrom_wellFormed P
    ⟨by simp [Succession.kids], fun _ => rfl, fun hpos => by simp at hpos⟩ hok

/-! ## A sealed record is accepted -/

theorem toSignature_toList (sig : Signature) :
    toSignature sig.toList = some sig := by
  unfold toSignature
  rw [dif_pos (by simp)]
  congr 1

theorem find?_keyFingerprint {keys : List VerifyingKey} {key : VerifyingKey}
    (hkey : key ∈ keys) :
    keys.find? (fun other => keyFingerprint other == keyFingerprint key) =
      some key := by
  have hsome : (keys.find? fun other =>
      keyFingerprint other == keyFingerprint key).isSome := by
    rw [List.find?_isSome]
    exact ⟨key, hkey, by simp⟩
  obtain ⟨found, hfound⟩ := Option.isSome_iff_exists.mp hsome
  have heq := List.find?_some hfound
  rw [beq_iff_eq] at heq
  rw [hfound, keyFingerprint_injective heq]

theorem checkSigner_sealed {signers : List SignerSpan}
    {keys : List VerifyingKey} {key : SigningKey}
    (hkey : P.verifyingKey key ∈ keys)
    (hadmits : Succession.Admits signers (keyFingerprint (P.verifyingKey key)))
    (seq : ℕ) (hash : Bytes) :
    checkSigner P signers keys seq hash
        (P.encodeBase64 (P.sign key hash).toList)
        (some (keyFingerprint (P.verifyingKey key))) =
      .ok (Succession.extend signers
        (keyFingerprint (P.verifyingKey key)) seq) := by
  unfold checkSigner
  simp only [P.decode_encode, toSignature_toList, recordSigner,
    find?_keyFingerprint hkey, P.verify_sign, if_true]
  exact (succeed_eq_ok_iff _ _ _ _).mpr ⟨hadmits, rfl⟩

/-- A record sealed onto the state a verifier reached, by an admitted key of
its ring, passes every check. -/
theorem accepted_sealRecord {keys : List VerifyingKey} {key : SigningKey}
    {state : VerifyState} {entry : Entry}
    (hkey : P.verifyingKey key ∈ keys)
    (hadmits : Succession.Admits state.signers
      (keyFingerprint (P.verifyingKey key)))
    (hentry : entry.WithinLimit) (hseq : entry.seq = state.count) :
    Accepted P keys state ((sealRecord P key entry state.prev).line P)
      ((sealRecord P key entry state.prev).stored P)
      (Succession.extend state.signers
        (keyFingerprint (P.verifyingKey key)) state.count) where
  read := readRecord_line P _
  entry := by
    obtain ⟨read, hread, hreadSeq⟩ :=
      parseEntry_entryJson_of_withinLimit P hentry
    exact ⟨read, hread, hreadSeq.trans hseq⟩
  prev := rfl
  hash := rfl
  signature := by
    unfold checkSignature
    rw [if_neg (by simpa using List.ne_nil_of_mem hkey)]
    exact checkSigner_sealed P hkey hadmits _ _

/-- The state after a sealed record. -/
def VerifyState.afterSealed (state : VerifyState) (key : SigningKey)
    (entry : Entry) : VerifyState :=
  state.after ((sealRecord P key entry state.prev).stored P)
    (Succession.extend state.signers
      (keyFingerprint (P.verifyingKey key)) state.count) state.records

theorem verifyLine_sealRecord {keys : List VerifyingKey} {key : SigningKey}
    {state : VerifyState} {entry : Entry}
    (hkey : P.verifyingKey key ∈ keys)
    (hadmits : Succession.Admits state.signers
      (keyFingerprint (P.verifyingKey key)))
    (hentry : entry.WithinLimit) (hseq : entry.seq = state.count) :
    verifyLine P keys none state
        (.ok ((sealRecord P key entry state.prev).line P)) =
      .ok (state.afterSealed P key entry) := by
  rw [verifyLine_of_not_blank P keys none state (line_not_blank P _),
    verifyRecord_eq_ok_iff]
  exact ⟨_, _, _, accepted_sealRecord P hkey hadmits hentry hseq, rfl, rfl⟩

/-- An entry nesting too deep is written but not read back. -/
theorem verifyLine_sealRecord_of_not_withinLimit {keys : List VerifyingKey}
    {window : Option ReadWindow} {key : SigningKey} {state : VerifyState}
    {entry : Entry} {prev : String} (hentry : ¬ entry.WithinLimit) :
    verifyLine P keys window state
        (.ok ((sealRecord P key entry prev).line P)) =
      .error (.tamper state.count
        ("unparseable entry: " ++ P.serdeMessage .unreadable)) := by
  rw [verifyLine_of_not_blank P keys window state (line_not_blank P _)]
  have htext : ((sealRecord P key entry prev).stored P).entry =
      entryJson P entry := rfl
  unfold verifyRecord
  simp only [readRecord_line, htext,
    parseEntry_entryJson_of_not_withinLimit P hentry]

/-! ## Lines read from several files -/

/-- Lines as they are read from the files that hold them, to the first that
cannot be read. -/
inductive ReadAs : List Bytes → List (Except LedgerError String) → Prop
  | nil : ReadAs [] []
  | unread {line rest path error}
      (hline : decodeLine path line = .error error) :
      ReadAs (line :: rest) [.error error]
  | read {line rest path text texts}
      (hline : decodeLine path line = .ok text) (hrest : ReadAs rest texts) :
      ReadAs (line :: rest) (.ok text :: texts)

theorem readAs_map_append (path : String) (lines : List Bytes)
    {rest : List Bytes} {others : List (Except LedgerError String)}
    (hrest : ReadAs rest (untilUnread others)) :
    ReadAs (lines ++ rest)
      (untilUnread (lines.map (decodeLine path) ++ others)) := by
  induction lines with
  | nil => exact hrest
  | cons line lines ih =>
      rw [List.map_cons, List.cons_append, List.cons_append]
      cases hline : decodeLine path line with
      | error error => exact .unread hline
      | ok text => exact .read hline ih

theorem readAs_map (path : String) (lines : List Bytes) :
    ReadAs lines (untilUnread (lines.map (decodeLine path))) := by
  have hnil : ReadAs [] (untilUnread []) := .nil
  simpa using readAs_map_append path lines hnil

/-- A line the verifier accepts is accepted from whichever file it is
read. -/
theorem verifyLine_anyPath {keys : List VerifyingKey}
    {window : Option ReadWindow} {state next : VerifyState} {line : Bytes}
    {path : String} (other : String)
    (hok : verifyLine P keys window state (decodeLine path line) =
      .ok next) :
    verifyLine P keys window state (decodeLine other line) = .ok next := by
  unfold decodeLine at hok ⊢
  split
  case h_1 text htext => simpa [htext] using hok
  case h_2 htext =>
    rw [htext] at hok
    cases hok

theorem verifyFrom_readAs {keys : List VerifyingKey}
    {window : Option ReadWindow} {state final : VerifyState}
    {lines : List Bytes} {first second : List (Except LedgerError String)}
    (hfirst : ReadAs lines first) (hsecond : ReadAs lines second)
    (hok : verifyFrom P keys window state first = .ok final) :
    verifyFrom P keys window state second = .ok final := by
  induction hfirst generalizing state second with
  | nil =>
      cases hsecond
      exact hok
  | unread hline => cases hok
  | @read line rest path text texts hline _ ih =>
      rw [verifyFrom_cons] at hok
      obtain ⟨next, hnext, hok⟩ := Serde.bind_eq_ok.mp hok
      rw [← hline] at hnext
      cases hsecond with
      | @unread _ _ other error hother =>
          have hsame := verifyLine_anyPath P other hnext
          rw [hother] at hsame
          cases hsame
      | read hother hrest =>
          rw [verifyFrom_cons, ← hother, verifyLine_anyPath P _ hnext]
          exact ih hrest hok

/-- Lines are accepted as they are read just when each is accepted from one
path. -/
theorem verifyState_readAs {keys : List VerifyingKey}
    {window : Option ReadWindow} {final : VerifyState} {lines : List Bytes}
    {decoded : List (Except LedgerError String)}
    (hread : ReadAs lines decoded) (path : String) :
    verifyState P keys window decoded = .ok final ↔
      verifyState P keys window (lines.map (decodeLine path)) =
        .ok final := by
  rw [← verifyState_untilUnread P keys window (lines.map (decodeLine path))]
  exact ⟨verifyFrom_readAs P hread (readAs_map path lines),
    verifyFrom_readAs P (readAs_map path lines) hread⟩

end Decern
