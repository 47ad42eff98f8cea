import Decern.LedgerCommitments
import Decern.LedgerOpen
import Decern.ShardedLedger
import Mathlib.Tactic

/-!
# Reading records back

The readers of a ledger other than its verifier: windows of records as values
or as their own text, the leaves of the tree over them, and what is issued
over those leaves.  A reader that needs the whole line as a value reaches two
levels less deep than the verifier does.
-/

namespace Decern

open ByteText (Bytes)
open Serde (SerdeError Value docSource)

variable (P : Platform)

/-! ## Windows of records -/

/-- `serde_json::from_str::<Box<RawValue>>`: the text of the one value. -/
def parseRaw (text : String) : Option String :=
  (JsonText.readSpanned text.toList.length text.toList).bind
    fun (value, rest) =>
      if JsonText.skipSpace rest = [] then some (String.ofList value.raw)
      else none

/-- The loop of `read_records` and `read_raw_records`. -/
def readWindow {α : Type} (read : String → Option α) (limit : ℕ)
    (out : List α) :
    List (Except LedgerError String) → Except LedgerError (List α)
  | [] => .ok out
  | line :: rest =>
      if limit ≤ out.length then .ok out
      else
        match line with
        | .error error => .error error
        | .ok line =>
            if RustText.isBlank line then readWindow read limit out rest
            else
              match read line with
              | none => .error (.serde (P.serdeMessage .unreadable))
              | some value => readWindow read limit (out ++ [value]) rest

/-! ## Leaves -/

/-- The leaf a record's `hash` member stands for. -/
def leafOf (index : ℕ) (hash : Option String) : Except LedgerError Bytes :=
  match hash with
  | none => .error (.tamper index "record missing hash field")
  | some text =>
      match HexText.decode text with
      | none => .error (.tamper index "record hash is not valid hex")
      | some bytes => .ok bytes

def leavesFromRecords (records : List Value) :
    Except LedgerError (List Bytes) :=
  records.zipIdx.mapM fun record => leafOf record.2 (textMember record.1 "hash")

/-- `HashOnly`: the hash of a line, its other members ignored. -/
def readHashOnly (line : String) : Option String :=
  match JsonText.readOutline line.toList with
  | none => none
  | some outline =>
      let shape := Serde.outlineShape P.floats outline
      let hash : Except SerdeError String := do
        Serde.expectStruct 1 shape
        Serde.required shape 0 "hash" fun child =>
          Serde.readString (docSource P.floats) child.doc
      hash.toOption

def leavesFromLines (lines : List String) :
    Except LedgerError (List Bytes) :=
  lines.zipIdx.mapM fun line => leafOf line.2 (readHashOnly P line.1)

/-! ## What a ledger reads and issues -/

/-- What resolving a ledger's location gives: its files, in order. -/
abbrev Location := Except LedgerError (List LedgerFile)

structure InclusionProof where
  leafIndex : ℕ
  treeSize : ℕ
  leafData : String
  auditPath : List String
  deriving DecidableEq, Repr

structure ConsistencyProof where
  firstSize : ℕ
  secondSize : ℕ
  proof : List String
  deriving DecidableEq, Repr

/-- The records and the two commitments a bundle is cut from. -/
structure EvidenceSnapshot (ρ : Type) where
  count : UInt64
  records : List ρ
  checkpoint : Checkpoint
  treeHead : TreeHead

def hexDigests (path : List Digest) : List String :=
  path.map fun digest => HexText.encode digest.toList

/-- The inclusion proof of one record over the leaves of a log. -/
def inclusionProofOver (leaves : List Bytes) (seq : ℕ) :
    Except LedgerError InclusionProof :=
  match inclusionProof P leaves seq with
  | none => .error (.tamper seq "inclusion index past the end of the log")
  | some path =>
      .ok
        { leafIndex := seq
          treeSize := leaves.length
          leafData := HexText.encode (leaves.getD seq [])
          auditPath := hexDigests path }

def inclusionProofsOver (leaves : List Bytes) (seqs : List ℕ) :
    Except LedgerError (List InclusionProof) :=
  seqs.mapM (inclusionProofOver P leaves)

/-- The consistency proof from the first records of a log to all of it. -/
def consistencyProofOver (leaves : List Bytes) (firstSize : ℕ) :
    Except LedgerError ConsistencyProof :=
  match consistencyProof P leaves firstSize with
  | none =>
      .error (.tamper firstSize
        "consistency first_size out of range (need 1..=count)")
  | some path =>
      .ok
        { firstSize
          secondSize := leaves.length
          proof := hexDigests path }

/-- A tree head over some leaves. -/
def treeHeadOver (key : SigningKey) (leaves : List Bytes)
    (tsMs : UInt64) : TreeHead :=
  signTreeHead P key (merkleRootHex P leaves) (UInt64.ofNat leaves.length)
    tsMs

namespace Ledger

def readRecords (location : Location) (offset limit : ℕ) :
    Except LedgerError (List Value) := do
  let files ← location
  readWindow P (parseValue P) limit [] ((chainedLines files).drop offset)

def readRawRecords (location : Location) (offset limit : ℕ) :
    Except LedgerError (List String) := do
  let files ← location
  readWindow P parseRaw limit [] ((chainedLines files).drop offset)

def checkpoint (ledger : Ledger) (tsMs : UInt64) : Checkpoint :=
  signCheckpoint P ledger.key ledger.lastHash (UInt64.ofNat ledger.nextSeq)
    tsMs

def merkleLeaves (ledger : Ledger) (location : Location) :
    Except LedgerError (List Bytes) := do
  let records ← readRecords P location 0 ledger.nextSeq
  leavesFromRecords records

def treeHead (ledger : Ledger) (location : Location) (tsMs : UInt64) :
    Except LedgerError TreeHead := do
  let leaves ← ledger.merkleLeaves P location
  return treeHeadOver P ledger.key leaves tsMs

def inclusionProof (ledger : Ledger) (location : Location) (seq : ℕ) :
    Except LedgerError InclusionProof := do
  let leaves ← ledger.merkleLeaves P location
  inclusionProofOver P leaves seq

def inclusionProofs (ledger : Ledger) (location : Location)
    (seqs : List ℕ) : Except LedgerError (List InclusionProof) := do
  let leaves ← ledger.merkleLeaves P location
  inclusionProofsOver P leaves seqs

def consistencyProof (ledger : Ledger) (location : Location)
    (firstSize : ℕ) : Except LedgerError ConsistencyProof := do
  let leaves ← ledger.merkleLeaves P location
  consistencyProofOver P leaves firstSize

def snapshotForBundle (ledger : Ledger) (location : Location)
    (tsMs : UInt64) : Except LedgerError (EvidenceSnapshot String) := do
  let records ← readRawRecords P location 0 ledger.nextSeq
  let leaves ← ledger.merkleLeaves P location
  return { count := UInt64.ofNat ledger.nextSeq
           records
           checkpoint := ledger.checkpoint P tsMs
           treeHead := treeHeadOver P ledger.key leaves tsMs }

end Ledger

/-! ## What a shard's ledger reads and issues -/

namespace ShardedLedger

/-- The leaves of stored records, each parsed as its leaf is taken. -/
def leavesOfStored (records : List StoredRecord) :
    Except LedgerError (List Bytes) :=
  records.zipIdx.mapM fun record =>
    match parseValue P record.1.recordJson with
    | none => .error (.serde (P.serdeMessage .unreadable))
    | some value => leafOf record.2 (textMember value "hash")

def readRawRecords (shard : Shard) (offset limit : ℕ) :
    Except LedgerError (List String) :=
  ((shard.records.drop offset).take limit).mapM fun record =>
    match parseRaw record.recordJson with
    | none => .error (.serde (P.serdeMessage .unreadable))
    | some raw => .ok raw

variable {P}

/-- A window of a section that appends nothing. -/
def readRecords (ledger : ShardedLedger P) (name : String) (shard : Shard)
    (offset limit : ℕ) : Except LedgerError (List Value) :=
  (ledger.criticalSection name shard fun existing =>
    .ok (none, existing)).1.map
      fun read => (read.2.drop offset).take limit

def merkleLeaves (shard : Shard) : Except LedgerError (List Bytes) :=
  leavesOfStored P shard.records

def treeHead (ledger : ShardedLedger P) (shard : Shard) (tsMs : UInt64) :
    Except LedgerError TreeHead := do
  let leaves ← merkleLeaves (P := P) shard
  return treeHeadOver P ledger.key leaves tsMs

/-- One section reads the cursor and the records everything comes from. -/
def evidenceSnapshot (ledger : ShardedLedger P) (shard : Shard)
    (tsMs : UInt64) :
    Except LedgerError (EvidenceSnapshot StoredRecord) := do
  let leaves ← leavesOfStored P shard.records
  return { count := UInt64.ofNat shard.nextSeq
           records := shard.records
           checkpoint := signCheckpoint P ledger.key shard.lastHash
             (UInt64.ofNat shard.nextSeq) tsMs
           treeHead := treeHeadOver P ledger.key leaves tsMs }

end ShardedLedger

/-! ## Windows over lines -/

section Windows

variable {P} {α : Type} {read : String → Option α} {limit : ℕ}

/-- A window over lines that are read takes the values it has room for; what
follows them is not looked at once it is full. -/
theorem readWindow_ok {lines : List String} {values : List α}
    (hread : List.Forall₂ (fun line value =>
      RustText.isBlank line = false ∧ read line = some value) lines values)
    {rest : List (Except LedgerError String)} (out : List α)
    (hrest : rest = [] ∨ limit ≤ out.length + lines.length) :
    readWindow P read limit out (lines.map Except.ok ++ rest) =
      .ok (out ++ values.take (limit - out.length)) := by
  induction hread generalizing out with
  | nil =>
      rcases hrest with rfl | hfull
      · simp [readWindow]
      · rw [List.length_nil, Nat.add_zero] at hfull
        cases rest with
        | nil => simp [readWindow]
        | cons line others => simp [readWindow, hfull]
  | @cons line value lines values hline _ ih =>
      rw [List.map_cons, List.cons_append, readWindow]
      split
      case isTrue hfull => simp [Nat.sub_eq_zero_of_le hfull]
      case isFalse hroom =>
        have hnext := ih (out ++ [value]) (hrest.imp_right fun hfull => by
          simp only [List.length_cons, List.length_append,
            List.length_nil] at hfull ⊢
          omega)
        have hleft : limit - out.length =
            (limit - (out ++ [value]).length) + 1 := by
          simp only [List.length_append, List.length_singleton]
          omega
        simp only [hline.1, hline.2, Bool.false_eq_true, if_false]
        rw [hnext, hleft, List.take_succ_cons, List.append_assoc,
          List.singleton_append]

/-- A window with room for every line reads each of them. -/
theorem isSome_of_readWindow {lines : List String} {out values : List α}
    (hok : readWindow P read limit out (lines.map Except.ok) = .ok values)
    (hroom : out.length + lines.length ≤ limit) :
    ∀ line ∈ lines, RustText.isBlank line = false → (read line).isSome := by
  induction lines generalizing out with
  | nil => simp
  | cons first rest ih =>
      rw [List.length_cons] at hroom
      have hopen : ¬limit ≤ out.length := by omega
      rw [List.map_cons, readWindow, if_neg hopen] at hok
      intro line hline hblank
      by_cases hfirst : RustText.isBlank first = true
      · rw [if_pos hfirst] at hok
        rcases List.mem_cons.mp hline with rfl | hlater
        · rw [hfirst] at hblank
          cases hblank
        · exact ih hok (by omega) line hlater hblank
      · rw [if_neg hfirst] at hok
        cases hread : read first with
        | none =>
            rw [hread] at hok
            cases hok
        | some value =>
            rw [hread] at hok
            rcases List.mem_cons.mp hline with rfl | hlater
            · rw [hread]
              rfl
            · refine ih hok ?_ line hlater hblank
              rw [List.length_append, List.length_singleton]
              omega

end Windows

/-! ## Written records -/

/-- The leaves the records' hashes stand for. -/
def HashedTo (records : List RecordOut) (leaves : List Bytes) : Prop :=
  List.Forall₂ (fun record leaf => HexText.decode record.hash = some leaf)
    records leaves

theorem mapM_leaves {α : Type} {take : α × ℕ → Except LedgerError Bytes}
    {items : List α} {leaves : List Bytes}
    (htake : List.Forall₂ (fun item leaf => ∀ index,
      take (item, index) = .ok leaf) items leaves) (start : ℕ) :
    (items.zipIdx start).mapM take = .ok leaves := by
  induction htake generalizing start with
  | nil => rfl
  | cons hitem _ ih =>
      rw [List.zipIdx_cons, List.mapM_cons, hitem, ih]
      rfl

theorem leafOf_some {index : ℕ} {hash : String} {leaf : Bytes}
    (hleaf : HexText.decode hash = some leaf) :
    leafOf index (some hash) = .ok leaf := by
  simp [leafOf, hleaf]

theorem parseRaw_line (record : RecordOut) :
    parseRaw (record.line P) = some (record.line P) := by
  have hread := JsonText.readSpanned_print (record.toDoc P) le_rfl
    JsonText.delimited_nil
  rw [List.append_nil] at hread
  rw [parseRaw, line_toList, hread]
  simp [RecordOut.line]

theorem readHashOnly_line (record : RecordOut) :
    readHashOnly P (record.line P) = some record.hash := by
  obtain ⟨outline, houtline, hshape⟩ :=
    readOutline_structDoc P (record.fields P)
  have hhash := Serde.required_present (record.fields_nodup P) 0 "hash" rfl
    fun child => Serde.readString (docSource P.floats)
      (JsonText.spanned child).doc
  unfold readHashOnly
  rw [RecordOut.line, RecordOut.toDoc, String.toList_ofList, houtline]
  simp only [hshape, Serde.expectStruct, Serde.required_mapMembers, bind,
    Except.bind]
  rw [hhash]
  simp [JsonText.spanned, Except.toOption]

/-- Deriving the leaves from the lines reads the hashes alone. -/
theorem leavesFromLines_written {records : List RecordOut}
    {leaves : List Bytes} (hleaves : HashedTo records leaves) :
    leavesFromLines P (records.map (RecordOut.line P)) = .ok leaves := by
  apply mapM_leaves
  rw [List.forall₂_map_left_iff]
  apply hleaves.imp
  intro record leaf hleaf index
  simp only [readHashOnly_line, leafOf_some hleaf]

/-- The values of written lines. -/
def ValuesOf (records : List RecordOut) (values : List Value) : Prop :=
  List.Forall₂ (fun record value =>
    parseValue P (record.line P) = some value) records values

section Values

variable {P} {records : List RecordOut} {values : List Value}

theorem textMember_line {record : RecordOut} {value : Value}
    (hvalue : parseValue P (record.line P) = some value) :
    textMember value "hash" = some record.hash := by
  rcases textMember_of_readRecord P (readRecord_line P record) hvalue with
    ⟨items, hitems⟩ | ⟨hhash, _, _⟩
  · obtain ⟨members, hmembers⟩ := parseValue_line_object P hvalue
    rw [hitems] at hmembers
    cases hmembers
  · exact hhash

theorem leavesFromRecords_written {leaves : List Bytes}
    (hvalues : ValuesOf P records values)
    (hleaves : HashedTo records leaves) :
    leavesFromRecords values = .ok leaves := by
  apply mapM_leaves
  induction hvalues generalizing leaves with
  | nil =>
      cases hleaves
      exact .nil
  | cons hvalue _ ih =>
      cases hleaves with
      | cons hleaf hrest =>
          refine .cons (fun index => ?_) (ih hrest)
          simp only [textMember_line hvalue, leafOf_some hleaf]

/-- Lines within the parser's limit all have values. -/
theorem exists_valuesOf (hseq : ∀ record ∈ records, record.entry.seq < 2 ^ 64)
    (hlimit : ∀ record ∈ records, record.entry.LineWithinLimit) :
    ∃ values, ValuesOf P records values := by
  induction records with
  | nil => exact ⟨[], .nil⟩
  | cons record rest ih =>
      obtain ⟨value, hvalue⟩ := Option.isSome_iff_exists.mp
        ((parseValue_line_isSome_iff P record
          (hseq record (by simp))).mpr (hlimit record (by simp)))
      obtain ⟨others, hothers⟩ :=
        ih (fun other hother => hseq other (by simp [hother]))
          fun other hother => hlimit other (by simp [hother])
      exact ⟨value :: others, .cons hvalue hothers⟩

end Values

/-- A shard's leaves, from the lines it stores. -/
theorem ShardedLedger.leavesOfStored_written {stored : List StoredRecord}
    {records : List RecordOut} {values : List Value} {leaves : List Bytes}
    (hlines : stored.map StoredRecord.recordJson =
      records.map (RecordOut.line P))
    (hvalues : ValuesOf P records values)
    (hleaves : HashedTo records leaves) :
    leavesOfStored P stored = .ok leaves := by
  apply mapM_leaves
  induction hvalues generalizing stored leaves with
  | nil =>
      cases hleaves
      cases List.map_eq_nil_iff.mp hlines
      exact .nil
  | cons hvalue _ ih =>
      cases hleaves with
      | cons hleaf hrest =>
          obtain ⟨first, others, rfl, hfirst, hothers⟩ :=
            List.map_eq_cons_iff.mp hlines
          refine .cons (fun index => ?_) (ih hothers hrest)
          simp only [hfirst, hvalue, textMember_line hvalue,
            leafOf_some hleaf]

/-! ## A location that holds written records -/

/-- The files hold the records' lines, and `rest` after them. -/
def Location.Holds (location : Location) (records : List RecordOut)
    (rest : List (Except LedgerError String)) : Prop :=
  ∃ files, location = .ok files ∧ chainedLines files =
    (records.map (RecordOut.line P)).map Except.ok ++ rest

/-- The files hold the records' lines, and nothing after them. -/
def Location.Stores (location : Location) (records : List RecordOut) : Prop :=
  ∃ files, location = .ok files ∧ prefixLines files =
    ((records.map (RecordOut.line P)).map Except.ok, none)

/-- Without a torn tail the verifier reads every line. -/
theorem fst_prefixLines {files : List LedgerFile}
    (htorn : (prefixLines files).2 = none) :
    (prefixLines files).1 = chainedLines files := by
  have hbounded : (prefixLines files).1 =
      chainedLinesBounded (prefixLines files).2 files := rfl
  rw [hbounded, htorn]
  rfl

theorem Location.Stores.holds {P : Platform} {location : Location}
    {records : List RecordOut} (hstores : location.Stores P records) :
    location.Holds P records [] := by
  obtain ⟨files, rfl, hfiles⟩ := hstores
  refine ⟨files, rfl, ?_⟩
  rw [← fst_prefixLines (congrArg Prod.snd hfiles), hfiles, List.append_nil]

namespace Location.Holds

variable {P} {location : Location} {records : List RecordOut}
  {rest : List (Except LedgerError String)}

theorem window {α : Type} {read : String → Option α} {values : List α}
    {files : List LedgerFile}
    (hfiles : chainedLines files =
      (records.map (RecordOut.line P)).map Except.ok ++ rest)
    (hread : List.Forall₂ (fun record value =>
      read (record.line P) = some value) records values)
    {offset limit : ℕ}
    (hroom : rest = [] ∨ offset + limit ≤ records.length) :
    readWindow P read limit [] ((chainedLines files).drop offset) =
      .ok ((values.drop offset).take limit) := by
  have hlines : List.Forall₂ (fun line value =>
      RustText.isBlank line = false ∧ read line = some value)
      ((records.map (RecordOut.line P)).drop offset)
      (values.drop offset) := by
    rw [← List.map_drop, List.forall₂_map_left_iff]
    exact (List.forall₂_drop offset hread).imp fun record _ hvalue =>
      ⟨line_not_blank P record, hvalue⟩
  have hdrop : (chainedLines files).drop offset =
      ((records.map (RecordOut.line P)).drop offset).map Except.ok ++
        rest.drop (offset - records.length) := by
    rw [hfiles, List.drop_append, List.map_drop, List.length_map,
      List.length_map]
  rw [hdrop, readWindow_ok hlines []]
  · rfl
  · rcases hroom with rfl | hroom
    · exact Or.inl List.drop_nil
    · right
      simp only [List.length_drop, List.length_map, List.length_nil]
      omega

theorem readRecords (hholds : location.Holds P records rest)
    {values : List Value} (hvalues : ValuesOf P records values)
    (offset limit : ℕ)
    (hroom : rest = [] ∨ offset + limit ≤ records.length) :
    Ledger.readRecords P location offset limit =
      .ok ((values.drop offset).take limit) := by
  obtain ⟨files, rfl, hfiles⟩ := hholds
  exact window hfiles hvalues hroom

theorem readRawRecords (hholds : location.Holds P records rest)
    (offset limit : ℕ)
    (hroom : rest = [] ∨ offset + limit ≤ records.length) :
    Ledger.readRawRecords P location offset limit =
      .ok (((records.map (RecordOut.line P)).drop offset).take limit) := by
  obtain ⟨files, rfl, hfiles⟩ := hholds
  refine window hfiles ?_ hroom
  rw [List.forall₂_map_right_iff, List.forall₂_same]
  exact fun record _ => parseRaw_line P record

/-- A handle whose head counts the records finds their leaves. -/
theorem merkleLeaves (hholds : location.Holds P records rest)
    {values : List Value} (hvalues : ValuesOf P records values)
    {leaves : List Bytes} (hleaves : HashedTo records leaves)
    {ledger : Ledger} (hcount : ledger.nextSeq = records.length) :
    ledger.merkleLeaves P location = .ok leaves := by
  have hread := hholds.readRecords hvalues 0 ledger.nextSeq
    (Or.inr (by omega))
  have hall : (values.drop 0).take ledger.nextSeq = values := by
    rw [List.drop_zero, hcount, hvalues.length_eq, List.take_length]
  rw [hall] at hread
  unfold Ledger.merkleLeaves
  rw [hread]
  exact leavesFromRecords_written hvalues hleaves

theorem snapshotForBundle (hholds : location.Holds P records rest)
    {values : List Value} (hvalues : ValuesOf P records values)
    {leaves : List Bytes} (hleaves : HashedTo records leaves)
    {ledger : Ledger} (hcount : ledger.nextSeq = records.length)
    (tsMs : UInt64) :
    ledger.snapshotForBundle P location tsMs =
      .ok
        { count := UInt64.ofNat records.length
          records := records.map (RecordOut.line P)
          checkpoint := signCheckpoint P ledger.key ledger.lastHash
            (UInt64.ofNat records.length) tsMs
          treeHead := treeHeadOver P ledger.key leaves tsMs } := by
  have hraw := hholds.readRawRecords 0 ledger.nextSeq (Or.inr (by omega))
  have hall : ((records.map (RecordOut.line P)).drop 0).take
      ledger.nextSeq = records.map (RecordOut.line P) := by
    rw [List.drop_zero, List.take_of_length_le (by simp [hcount])]
  rw [hall] at hraw
  unfold Ledger.snapshotForBundle
  rw [hraw, hholds.merkleLeaves hvalues hleaves hcount]
  simp only [bind, Except.bind, pure, Except.pure, Ledger.checkpoint, hcount]

end Location.Holds

end Decern
