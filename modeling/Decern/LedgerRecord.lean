import Decern.JsonRoundTrip
import Decern.LedgerEntry
import Decern.RustText
import Mathlib.Tactic

/-!
# Ledger records

A record line is the serialized entry with the chain and signature envelope
around it.  The verifier reads the envelope of a line and keeps the entry's
own text, which is what the chain hashes.
-/

namespace Decern

open ByteText (Bytes)
open JsonText (Doc Outline Spanned)
open Serde (FloatText SerdeError Value docSource present stringDoc structDoc)

abbrev SigningKey := Vector UInt8 32
abbrev VerifyingKey := Vector UInt8 32
abbrev Signature := Vector UInt8 64

/-- The third-party code a ledger rests on: SHA-256, Ed25519, base64, the
text of doubles and the wording of parse errors. -/
structure Platform where
  floats : FloatText
  serdeMessage : SerdeError → String
  sha256 : Bytes → Bytes
  verifyingKey : SigningKey → VerifyingKey
  sign : SigningKey → Bytes → Signature
  verifyStrict : VerifyingKey → Bytes → Signature → Bool
  encodeBase64 : Bytes → String
  decodeBase64 : String → Option Bytes
  sha256_length : ∀ bytes, (sha256 bytes).length = 32
  verify_sign : ∀ key message,
    verifyStrict (verifyingKey key) message (sign key message) = true
  decode_encode : ∀ bytes, decodeBase64 (encodeBase64 bytes) = some bytes

inductive LedgerError where
  | io (path err : String)
  | serde (message : String)
  | tamper (seq : ℕ) (why : String)
  | tornTail (healedEntries : ℕ) (healedRoot : Option String)
      (tornPath : String) (tornFromOffset : ℕ)
  | keySuperseded (kid why : String)
  deriving DecidableEq, Repr

def genesis : String :=
  "0000000000000000000000000000000000000000000000000000000000000000"

/-- Hex of a public key. -/
def keyFingerprint (key : VerifyingKey) : String :=
  HexText.encode key.toList

theorem keyFingerprint_injective : Function.Injective keyFingerprint := by
  intro left right heq
  have hlist := HexText.encode_injective heq
  exact Vector.toList_inj.mp hlist

variable (P : Platform)

def chainHash (entryBytes : Bytes) (prev : String) : Bytes :=
  P.sha256 (entryBytes ++ ByteText.encode prev)

/-! ## Writing -/

/-- The serialized entry. -/
def entryJson (entry : Entry) : String :=
  String.ofList (JsonText.print (entry.toDoc P.floats))

/-- The envelope as it is written, the entry's text inlined. -/
structure RecordOut where
  entry : Entry
  prev : String
  hash : String
  sigB64 : String
  kid : Option String

def RecordOut.fields (record : RecordOut) : List (String × Option Doc) :=
  [("entry", record.entry.toDoc P.floats),
    ("prev", stringDoc record.prev),
    ("hash", stringDoc record.hash),
    ("sig_b64", stringDoc record.sigB64),
    ("kid", record.kid.map stringDoc)]

def RecordOut.toDoc (record : RecordOut) : Doc :=
  structDoc (record.fields P)

/-- The stored line, without its newline. -/
def RecordOut.line (record : RecordOut) : String :=
  String.ofList (JsonText.print (record.toDoc P))

/-- An entry hashed onto the chain and signed under a key. -/
def sealRecord (key : SigningKey) (entry : Entry) (prev : String) :
    RecordOut where
  entry := entry
  prev := prev
  hash := HexText.encode
    (chainHash P (ByteText.encode (entryJson P entry)) prev)
  sigB64 := P.encodeBase64 (P.sign key
    (chainHash P (ByteText.encode (entryJson P entry)) prev)).toList
  kid := some (keyFingerprint (P.verifyingKey key))

/-! ## Reading -/

/-- The envelope as it is read; the entry is its text in the line. -/
structure RecordIn where
  entry : String
  prev : String
  hash : String
  sigB64 : String
  kid : Option String
  deriving DecidableEq, Repr

def readRecord (line : String) : Except SerdeError RecordIn := do
  match JsonText.readOutline line.toList with
  | none => .error .unreadable
  | some outline =>
      let shape := Serde.outlineShape P.floats outline
      let readString (child : Spanned) :=
        Serde.readString (docSource P.floats) child.doc
      Serde.expectStruct 5 shape
      let entry ← Serde.required shape 0 "entry"
        fun child => .ok (String.ofList child.raw)
      let prev ← Serde.required shape 1 "prev" readString
      let hash ← Serde.required shape 2 "hash" readString
      let sigB64 ← Serde.required shape 3 "sig_b64" readString
      let kid ← Serde.defaulted shape 4 "kid" none fun child =>
        Serde.readOption (docSource P.floats)
          (Serde.readString (docSource P.floats)) child.doc
      return { entry, prev, hash, sigB64, kid }

/-- `serde_json::from_str::<Entry>`. -/
def parseEntry (text : String) : Except SerdeError Entry :=
  match JsonText.parse text.toList with
  | none => .error .unreadable
  | some doc => readEntry (docSource P.floats) doc

/-- `serde_json::from_str::<Value>`. -/
def parseValue (text : String) : Option Value :=
  (JsonText.parse text.toList).bind (Serde.readValue P.floats 0)

/-! ## What is written is read back -/

/-- Reading a written struct keeps the text of each field. -/
theorem readOutline_structDoc (fields : List (String × Option Doc)) :
    ∃ outline,
      JsonText.readOutline (JsonText.print (structDoc fields)) =
        some outline ∧
      Serde.outlineShape P.floats outline =
        .object (Serde.mapMembers JsonText.spanned (present fields)) := by
  refine ⟨_, JsonText.readOutline_print_object _, ?_⟩
  simp only [Serde.outlineShape, List.map_map]
  have hnames : (fun member : List JsonText.StringUnit × Doc =>
      (member.1, JsonText.spanned member.2)) ∘
        (fun member : String × Doc =>
          (JsonText.ofString member.1, member.2)) =
      (fun member : String × Spanned =>
        (JsonText.ofString member.1, member.2)) ∘
        fun member : String × Doc =>
          (member.1, JsonText.spanned member.2) := by
    funext member
    rfl
  rw [hnames, ← List.map_map, Serde.namedMembers_ofString]
  rfl

theorem RecordOut.fields_nodup (record : RecordOut) :
    ((record.fields P).map Prod.fst).Nodup := by
  have hnames : (record.fields P).map Prod.fst =
      ["entry", "prev", "hash", "sig_b64", "kid"] := rfl
  rw [hnames]
  decide

/-- The envelope a written line is read back as. -/
def RecordOut.stored (record : RecordOut) : RecordIn where
  entry := entryJson P record.entry
  prev := record.prev
  hash := record.hash
  sigB64 := record.sigB64
  kid := record.kid

theorem readRecord_line (record : RecordOut) :
    readRecord P (record.line P) = .ok (record.stored P) := by
  have hnames := record.fields_nodup P
  obtain ⟨outline, houtline, hshape⟩ :=
    readOutline_structDoc P (record.fields P)
  have hentry := Serde.required_present hnames 0 "entry" rfl
    fun child => Except.ok (String.ofList (JsonText.spanned child).raw)
  have hprev := Serde.required_present hnames 1 "prev" rfl
    fun child => Serde.readString (docSource P.floats)
      (JsonText.spanned child).doc
  have hhash := Serde.required_present hnames 2 "hash" rfl
    fun child => Serde.readString (docSource P.floats)
      (JsonText.spanned child).doc
  have hsig := Serde.required_present hnames 3 "sig_b64" rfl
    fun child => Serde.readString (docSource P.floats)
      (JsonText.spanned child).doc
  have hkid := defaulted_optional P.floats hnames 4 "kid" rfl
    (Serde.readString_stringDoc P.floats) (fun _ => by simp [stringDoc])
  unfold readRecord
  rw [RecordOut.line, RecordOut.toDoc, String.toList_ofList, houtline]
  simp only [hshape, Serde.expectStruct, Serde.required_mapMembers,
    Serde.defaulted_mapMembers, bind, Except.bind, pure, Except.pure]
  rw [hentry, hprev, hhash, hsig]
  simp only [JsonText.spanned] at hkid ⊢
  simp only [Serde.readString_stringDoc, hkid]
  rfl

theorem parseEntry_entryJson (entry : Entry) :
    parseEntry P (entryJson P entry) =
      match Serde.readValue P.floats 1 (entry.context.toDoc P.floats) with
      | some context => .ok { entry with context }
      | none => .error .unreadable := by
  have hparse : JsonText.parse (JsonText.print (entry.toDoc P.floats)) =
      some (entry.toDoc P.floats) := JsonText.parse_print_object _
  rw [parseEntry, entryJson, String.toList_ofList, hparse]
  exact readEntry_toDoc P.floats entry

/-- An entry whose text nests below the parser's limit. -/
def Entry.WithinLimit (entry : Entry) : Prop :=
  1 + entry.context.nesting < Serde.recursionLimit

instance (entry : Entry) : Decidable entry.WithinLimit :=
  inferInstanceAs (Decidable (1 + entry.context.nesting < _))

/-- The entry with the number its writer gives it. -/
def Entry.withSeq (entry : Entry) (seq : ℕ) : Entry :=
  { entry with seq }

theorem Entry.withSeq_withinLimit {entry : Entry} {seq : ℕ} :
    (entry.withSeq seq).WithinLimit ↔ entry.WithinLimit :=
  Iff.rfl

/-- A written entry is read back, with its sequence number, exactly when it
is within the limit. -/
theorem parseEntry_entryJson_of_withinLimit {entry : Entry}
    (hentry : entry.WithinLimit) :
    ∃ read, parseEntry P (entryJson P entry) = .ok read ∧
      read.seq = entry.seq := by
  obtain ⟨context, hcontext⟩ := Option.isSome_iff_exists.mp
    ((Serde.readValue_toDoc_isSome_iff P.floats 1 entry.context).mpr hentry)
  refine ⟨{ entry with context }, ?_, rfl⟩
  rw [parseEntry_entryJson, hcontext]

theorem parseEntry_entryJson_of_not_withinLimit {entry : Entry}
    (hentry : ¬ entry.WithinLimit) :
    parseEntry P (entryJson P entry) = .error .unreadable := by
  have hnone : Serde.readValue P.floats 1 (entry.context.toDoc P.floats) =
      none := by
    rw [← Option.not_isSome_iff_eq_none, Serde.readValue_toDoc_isSome_iff]
    exact hentry
  rw [parseEntry_entryJson, hnone]

/-! ## The shape of a line -/

theorem line_toList (record : RecordOut) :
    (record.line P).toList = JsonText.print (record.toDoc P) := by
  rw [RecordOut.line, String.toList_ofList]

theorem newline_notMem_line (record : RecordOut) :
    ByteText.newline ∉ ByteText.encode (record.line P) := by
  apply ByteText.newline_notMem_encode
  rw [line_toList]
  intro hmem
  exact JsonText.not_lt_space_print _ '\n' hmem (by decide)

/-- A line starts with an opening brace and ends with a closing one. -/
theorem line_braces (record : RecordOut) :
    ∃ inside, (record.line P).toList = '{' :: (inside ++ ['}']) := by
  rw [line_toList]
  exact ⟨_, JsonText.print_object _⟩

/-- A line's bytes start and end as its text does. -/
theorem encode_line_braces (record : RecordOut) :
    ∃ inside, ByteText.encode (record.line P) = 123 :: (inside ++ [125]) := by
  obtain ⟨inside, hline⟩ := line_braces P record
  refine ⟨inside.flatMap String.utf8EncodeChar, ?_⟩
  have hopen : String.utf8EncodeChar '{' = [123] := by decide
  have hclose : String.utf8EncodeChar '}' = [125] := by decide
  simp [ByteText.encode, hline, hopen, hclose]

theorem line_not_blank (record : RecordOut) :
    RustText.isBlank (record.line P) = false := by
  obtain ⟨inside, hline⟩ := line_braces P record
  exact RustText.isBlank_eq_false (c := '{') (by simp [hline]) (by decide)

end Decern
