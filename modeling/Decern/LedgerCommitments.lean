import Decern.LedgerMerkle
import Decern.LedgerAnchor
import Mathlib.Tactic

/-!
# Commitments

What a ledger signs besides its records: the head of the chain in a
checkpoint, and the root of the tree over the record hashes in a tree head.
Both are signed under the writer's key, and read back as they were written.
-/

namespace Decern

open ByteText (Bytes)
open JsonText (Doc)
open Serde (SerdeError docSource naturalText present stringDoc structDoc)

variable (P : Platform)

/-- A signed commitment to the tree over the first `treeSize` records. -/
structure TreeHead where
  merkleRoot : String
  treeSize : UInt64
  tsMs : UInt64
  pubkeyHex : String
  sigB64 : String
  deriving DecidableEq, Repr

def treeHeadBytes (merkleRoot : String) (treeSize tsMs : UInt64) : Bytes :=
  commitmentBytes "decern-ledger-tree-head" merkleRoot treeSize tsMs

def verifyTreeHeadSig (th : TreeHead) (pubkey : VerifyingKey) : Bool :=
  match (P.decodeBase64 th.sigB64).bind toSignature with
  | none => false
  | some sig =>
      P.verifyStrict pubkey
        (treeHeadBytes th.merkleRoot th.treeSize th.tsMs) sig

/-! ## Signing -/

/-- The checkpoint of a head, as `checkpoint` signs it. -/
def signCheckpoint (key : SigningKey) (root : String)
    (count tsMs : UInt64) : Checkpoint where
  root := root
  count := count
  tsMs := tsMs
  pubkeyHex := keyFingerprint (P.verifyingKey key)
  sigB64 := P.encodeBase64
    (P.sign key (checkpointBytes root count tsMs)).toList

def signTreeHead (key : SigningKey) (merkleRoot : String)
    (treeSize tsMs : UInt64) : TreeHead where
  merkleRoot := merkleRoot
  treeSize := treeSize
  tsMs := tsMs
  pubkeyHex := keyFingerprint (P.verifyingKey key)
  sigB64 := P.encodeBase64
    (P.sign key (treeHeadBytes merkleRoot treeSize tsMs)).toList

theorem verifyCheckpointSig_signCheckpoint (key : SigningKey)
    (root : String) (count tsMs : UInt64) :
    verifyCheckpointSig P (signCheckpoint P key root count tsMs)
      (P.verifyingKey key) = true := by
  simp [verifyCheckpointSig, signCheckpoint, P.decode_encode,
    toSignature_toList, P.verify_sign]

theorem verifyTreeHeadSig_signTreeHead (key : SigningKey)
    (merkleRoot : String) (treeSize tsMs : UInt64) :
    verifyTreeHeadSig P (signTreeHead P key merkleRoot treeSize tsMs)
      (P.verifyingKey key) = true := by
  simp [verifyTreeHeadSig, signTreeHead, P.decode_encode,
    toSignature_toList, P.verify_sign]

/-! ## Written and read -/

def Checkpoint.fields (cp : Checkpoint) : List (String × Option Doc) :=
  [("root", stringDoc cp.root),
    ("count", some (.number (naturalText cp.count.toNat))),
    ("ts_ms", some (.number (naturalText cp.tsMs.toNat))),
    ("pubkey_hex", stringDoc cp.pubkeyHex),
    ("sig_b64", stringDoc cp.sigB64)]

def Checkpoint.toDoc (cp : Checkpoint) : Doc :=
  structDoc cp.fields

def TreeHead.fields (th : TreeHead) : List (String × Option Doc) :=
  [("merkle_root", stringDoc th.merkleRoot),
    ("tree_size", some (.number (naturalText th.treeSize.toNat))),
    ("ts_ms", some (.number (naturalText th.tsMs.toNat))),
    ("pubkey_hex", stringDoc th.pubkeyHex),
    ("sig_b64", stringDoc th.sigB64)]

def TreeHead.toDoc (th : TreeHead) : Doc :=
  structDoc th.fields

def readTreeHead (doc : Doc) : Except SerdeError TreeHead := do
  let source := docSource P.floats
  let shape := source.shape doc
  Serde.expectStruct 5 shape
  let merkleRoot ← Serde.required shape 0 "merkle_root"
    (Serde.readString source)
  let treeSize ← Serde.required shape 1 "tree_size" (Serde.readU64 source)
  let tsMs ← Serde.required shape 2 "ts_ms" (Serde.readU64 source)
  let pubkeyHex ← Serde.required shape 3 "pubkey_hex"
    (Serde.readString source)
  let sigB64 ← Serde.required shape 4 "sig_b64" (Serde.readString source)
  return { merkleRoot, treeSize, tsMs, pubkeyHex, sigB64 }

theorem readCheckpointDoc_toDoc (cp : Checkpoint) :
    readCheckpointDoc P cp.toDoc = .ok cp := by
  have hnames : (cp.fields.map Prod.fst).Nodup := by
    have hlist : cp.fields.map Prod.fst =
        ["root", "count", "ts_ms", "pubkey_hex", "sig_b64"] := rfl
    rw [hlist]
    decide
  unfold readCheckpointDoc
  simp only [Checkpoint.toDoc, Serde.docSource_shape,
    Serde.docShape_structDoc, Serde.expectStruct]
  rw [Serde.required_present hnames 0 "root" rfl,
    Serde.required_present hnames 1 "count" rfl,
    Serde.required_present hnames 2 "ts_ms" rfl,
    Serde.required_present hnames 3 "pubkey_hex" rfl,
    Serde.required_present hnames 4 "sig_b64" rfl]
  simp only [Serde.readString_stringDoc, Serde.readU64_naturalText]
  rfl

theorem readTreeHead_toDoc (th : TreeHead) :
    readTreeHead P th.toDoc = .ok th := by
  have hnames : (th.fields.map Prod.fst).Nodup := by
    have hlist : th.fields.map Prod.fst =
        ["merkle_root", "tree_size", "ts_ms", "pubkey_hex", "sig_b64"] :=
      rfl
    rw [hlist]
    decide
  unfold readTreeHead
  simp only [TreeHead.toDoc, Serde.docSource_shape,
    Serde.docShape_structDoc, Serde.expectStruct]
  rw [Serde.required_present hnames 0 "merkle_root" rfl,
    Serde.required_present hnames 1 "tree_size" rfl,
    Serde.required_present hnames 2 "ts_ms" rfl,
    Serde.required_present hnames 3 "pubkey_hex" rfl,
    Serde.required_present hnames 4 "sig_b64" rfl]
  simp only [Serde.readString_stringDoc, Serde.readU64_naturalText]
  rfl

/-! ## The tree over the record hashes -/

/-- The 32 bytes that 64 digits stand for. -/
def hexTo32 (text : String) : Option Digest :=
  (HexText.decode text).bind fun bytes =>
    if h : bytes.length = 32 then some ⟨bytes.toArray, by simpa using h⟩
    else none

/-- The hex root of the tree over some leaves. -/
def merkleRootHex (leaves : List Bytes) : String :=
  HexText.encode (treeHash P leaves).toList

theorem hexTo32_eq_some_iff {text : String} {digest : Digest} :
    hexTo32 text = some digest ↔
      HexText.decode text = some digest.toList := by
  unfold hexTo32
  cases HexText.decode text with
  | none => simp
  | some bytes =>
      simp only [Option.bind_some, Option.some.injEq]
      constructor
      · intro hdigest
        split at hdigest
        case isTrue h =>
          cases hdigest
          simp
        case isFalse => cases hdigest
      · rintro rfl
        rw [dif_pos (by simp)]
        congr 1

@[simp] theorem hexTo32_encode (digest : Digest) :
    hexTo32 (HexText.encode digest.toList) = some digest := by
  rw [hexTo32_eq_some_iff, HexText.decode_encode]

end Decern
