import Decern.EvidenceBundle
import Mathlib.Tactic

/-!
# The text of a bundle

An exported bundle joins the stored lines, byte for byte, to a signed
checkpoint and a signed tree head.  Read back, it holds the records of those
lines and the two commitments.
-/

namespace Decern

open ByteText (Bytes)
open JsonText (Doc Spanned)
open Serde (SerdeError docSource naturalText present stringDoc structDoc)

variable (P : Platform)

/-- What stands before the checkpoint of a full tail. -/
def bundleHead : String :=
  "\"format\":\"decern-evidence-bundle/1\",\"span\":\x7b\"from\":0\x7d"

/-- A bundle of stored lines from the first record on. -/
def bundleJson (cp : Checkpoint) (th : TreeHead) (lines : List String) :
    String :=
  "\x7b" ++ bundleHead ++
    ",\"checkpoint\":" ++ String.ofList (JsonText.print cp.toDoc) ++
    ",\"tree_head\":" ++ String.ofList (JsonText.print th.toDoc) ++
    ",\"records\":[" ++ String.intercalate "," lines ++ "]\x7d"

def spanDoc : Doc :=
  structDoc [("from", some (.number (naturalText 0)))]

def bundleFields (cp : Checkpoint) (th : TreeHead)
    (records : List RecordOut) : List (String × Option Doc) :=
  [("format", stringDoc "decern-evidence-bundle/1"),
    ("span", spanDoc),
    ("checkpoint", cp.toDoc),
    ("tree_head", th.toDoc),
    ("records", some (.array (records.map (RecordOut.toDoc P))))]

theorem commaSeparated_eq_intercalate (texts : List (List Char)) :
    JsonText.commaSeparated texts = List.intercalate [','] texts := by
  induction texts with
  | nil => rfl
  | cons first rest ih =>
      cases rest with
      | nil => simp [JsonText.commaSeparated]
      | cons second more =>
          rw [JsonText.commaSeparated_cons_cons, ih,
            List.intercalate_cons_cons]
          simp

theorem intercalate_lines (records : List RecordOut) :
    (String.intercalate "," (records.map (RecordOut.line P))).toList =
      JsonText.commaSeparated
        ((records.map (RecordOut.toDoc P)).map JsonText.print) := by
  have hcomma : ",".toList = [','] := rfl
  have hprint : String.toList ∘ RecordOut.line P =
      JsonText.print ∘ RecordOut.toDoc P := by
    funext record
    exact line_toList P record
  rw [String.toList_intercalate, commaSeparated_eq_intercalate,
    List.map_map, List.map_map, hcomma, hprint]

/-- The members of a bundle up to the checkpoint. -/
theorem print_bundleHead :
    JsonText.printMember (JsonText.ofString "format",
        stringDoc "decern-evidence-bundle/1") ++
      ',' :: JsonText.printMember (JsonText.ofString "span", spanDoc) =
    bundleHead.toList := by
  decide +kernel

theorem print_names :
    (",\"checkpoint\":".toList =
        ',' :: (JsonText.printString (JsonText.ofString "checkpoint") ++
          [':'])) ∧
      (",\"tree_head\":".toList =
        ',' :: (JsonText.printString (JsonText.ofString "tree_head") ++
          [':'])) ∧
      ",\"records\":[".toList =
        ',' :: (JsonText.printString (JsonText.ofString "records") ++
          [':', '[']) := by
  decide +kernel

/-- The text of written lines is the printed tree of the bundle. -/
theorem bundleJson_toList (cp : Checkpoint) (th : TreeHead)
    (records : List RecordOut) :
    (bundleJson cp th (records.map (RecordOut.line P))).toList =
      JsonText.print (structDoc (bundleFields P cp th records)) := by
  obtain ⟨hcheckpoint, htreeHead, hrecords⟩ := print_names
  have hopen : "\x7b".toList = ['{'] := rfl
  have hclose : "]\x7d".toList = [']', '}'] := rfl
  have hmembers : present (bundleFields P cp th records) =
      [("format", stringDoc "decern-evidence-bundle/1"), ("span", spanDoc),
        ("checkpoint", cp.toDoc), ("tree_head", th.toDoc),
        ("records", .array (records.map (RecordOut.toDoc P)))] := rfl
  have hprint : JsonText.print (structDoc (bundleFields P cp th records)) =
      '{' :: ((JsonText.printMember (JsonText.ofString "format",
          stringDoc "decern-evidence-bundle/1") ++
        ',' :: JsonText.printMember (JsonText.ofString "span", spanDoc)) ++
        ',' :: (JsonText.printString (JsonText.ofString "checkpoint") ++
          ':' :: JsonText.print cp.toDoc) ++
        ',' :: (JsonText.printString (JsonText.ofString "tree_head") ++
          ':' :: JsonText.print th.toDoc) ++
        ',' :: (JsonText.printString (JsonText.ofString "records") ++
          ':' :: '[' :: (JsonText.commaSeparated
            ((records.map (RecordOut.toDoc P)).map JsonText.print) ++
              [']'])) ++ ['}']) := by
    rw [structDoc, Serde.objectDoc, hmembers, JsonText.print_object]
    simp only [List.map_cons, List.map_nil, JsonText.printMember,
      JsonText.commaSeparated, JsonText.print_array, List.append_assoc,
      List.cons_append, List.nil_append]
  rw [hprint, print_bundleHead]
  simp only [bundleJson, String.toList_append, String.toList_ofList,
    intercalate_lines, hcheckpoint, htreeHead, hrecords, hopen, hclose,
    List.append_assoc, List.cons_append, List.nil_append]

/-! ## Read back -/

/-- The bundle that the text of written lines is read as. -/
def bundleOf (cp : Checkpoint) (th : TreeHead) (records : List RecordOut)
    (hfits : records.length < UInt64.size) : BundleIn where
  format := "decern-evidence-bundle/1"
  span := {}
  checkpoint := cp
  treeHead := some th
  records := records.map (RecordOut.stored P)
  fits := by simpa using hfits

/-- The span of a bundle that starts at some record. -/
def spanFrom (fromSeq : UInt64) : Doc :=
  structDoc [("from", some (.number (naturalText fromSeq.toNat)))]

theorem readSpan_spanFrom (fromSeq : UInt64) :
    readSpan P (spanFrom fromSeq) = .ok { fromSeq } := by
  have hnames : ([("from", some (Doc.number
      (naturalText fromSeq.toNat)))].map Prod.fst : List String).Nodup := by
    simp
  unfold readSpan spanFrom
  simp only [Serde.docSource_shape, Serde.docShape_structDoc,
    Serde.expectStruct]
  rw [Serde.defaulted_present hnames 0 "from" rfl]
  simp only
  rw [Serde.readU64_naturalText]
  rfl

theorem readRecords_spanned (records : List RecordOut) :
    readRecords P (JsonText.spanned
        (.array (records.map (RecordOut.toDoc P)))) =
      .ok (records.map (RecordOut.stored P)) := by
  have houtline : JsonText.readOutline (JsonText.spanned
      (.array (records.map (RecordOut.toDoc P)))).raw =
        some (.array ((records.map (RecordOut.toDoc P)).map
          JsonText.spanned)) :=
    JsonText.readOutline_print_array _
  unfold readRecords
  rw [houtline]
  simp only [Serde.outlineShape]
  induction records with
  | nil => rfl
  | cons record rest ih =>
      have hfirst : readRecord P (String.ofList
          (JsonText.spanned (record.toDoc P)).raw) =
            .ok (record.stored P) :=
        readRecord_line P record
      rw [List.map_cons, List.map_cons, List.mapM_cons, hfirst,
        ih (JsonText.readOutline_print_array _)]
      rfl

/-- The fields of a bundle that starts at some record. -/
def fieldsFrom (fromSeq : UInt64) (cp : Checkpoint) (th : TreeHead)
    (records : List RecordOut) : List (String × Option Doc) :=
  [("format", stringDoc "decern-evidence-bundle/1"),
    ("span", spanFrom fromSeq),
    ("checkpoint", cp.toDoc),
    ("tree_head", th.toDoc),
    ("records", some (.array (records.map (RecordOut.toDoc P))))]

theorem readBundle_fieldsFrom (fromSeq : UInt64) (cp : Checkpoint)
    (th : TreeHead) (records : List RecordOut)
    (hfits : records.length < UInt64.size) {text : String}
    (htext : text.toList =
      JsonText.print (structDoc (fieldsFrom P fromSeq cp th records))) :
    readBundle P text =
      .ok { bundleOf P cp th records hfits with span := { fromSeq } } := by
  have hnames :
      ((fieldsFrom P fromSeq cp th records).map Prod.fst).Nodup := by
    have hlist : (fieldsFrom P fromSeq cp th records).map Prod.fst =
        ["format", "span", "checkpoint", "tree_head", "records"] := rfl
    rw [hlist]
    decide
  obtain ⟨outline, houtline, hshape⟩ :=
    readOutline_structDoc P (fieldsFrom P fromSeq cp th records)
  have hformat := Serde.defaulted_present hnames 0 "format" rfl ""
    fun child => Serde.readString (docSource P.floats)
      (JsonText.spanned child).doc
  have hspan := Serde.defaulted_present hnames 1 "span" rfl {}
    fun child => readSpan P (JsonText.spanned child).doc
  have hcheckpoint := Serde.required_present hnames 2 "checkpoint" rfl
    fun child => readCheckpointDoc P (JsonText.spanned child).doc
  have htreeHead := Serde.defaulted_present hnames 3 "tree_head" rfl none
    fun child => Serde.readOption (docSource P.floats) (readTreeHead P)
      (JsonText.spanned child).doc
  have hrecords := Serde.defaulted_present hnames 4 "records" rfl []
    fun child => readRecords P (JsonText.spanned child)
  have hhead : Serde.readOption (docSource P.floats) (readTreeHead P)
      th.toDoc = .ok (some th) := by
    rw [Serde.readOption_of_ne_null P.floats (by simp [TreeHead.toDoc,
      structDoc, Serde.objectDoc]), readTreeHead_toDoc]
    rfl
  unfold readBundle
  rw [htext, houtline]
  simp only [hshape, Serde.expectStruct, Serde.required_mapMembers,
    Serde.defaulted_mapMembers, bind, Except.bind]
  rw [hformat, hspan, hcheckpoint, htreeHead, hrecords]
  simp only [JsonText.spanned, Serde.readString_stringDoc,
    readSpan_spanFrom, readCheckpointDoc_toDoc, hhead]
  have hread := readRecords_spanned P records
  simp only [JsonText.spanned] at hread
  rw [hread]
  simp only [List.length_map, hfits, dif_pos]
  rfl

theorem readBundle_bundleJson (cp : Checkpoint) (th : TreeHead)
    (records : List RecordOut) (hfits : records.length < UInt64.size) :
    readBundle P (bundleJson cp th (records.map (RecordOut.line P))) =
      .ok (bundleOf P cp th records hfits) :=
  readBundle_fieldsFrom P 0 cp th records hfits
    (bundleJson_toList P cp th records)

/-! ## A bundle made from a chain is accepted -/

/-- The leaves a list of records has in the tree. -/
def leavesOf (records : List RecordIn) : Option (List Bytes) :=
  records.mapM fun record => HexText.decode record.hash

/-- The leaves of a chain that checks out are its record hashes. -/
theorem leavesOf_of_checkChain {index : ℕ} {expected : Option String}
    {records : List RecordIn}
    (hok : (checkChain P index expected records).ok = true) :
    leavesOf records = some (checkChain P index expected records).leaves := by
  unfold leavesOf
  induction records generalizing index expected with
  | nil => rfl
  | cons record rest ih =>
      simp only [checkChain, Bool.and_eq_true] at hok
      obtain ⟨leaf, hleaf⟩ := Option.isSome_iff_exists.mp hok.1.2
      rw [List.mapM_cons, hleaf, ih hok.2]
      simp [checkChain, hleaf]

theorem length_of_leavesOf {records : List RecordIn} {leaves : List Bytes}
    (hleaves : leavesOf records = some leaves) :
    leaves.length = records.length := by
  unfold leavesOf at hleaves
  induction records generalizing leaves with
  | nil =>
      cases hleaves
      rfl
  | cons record rest ih =>
      rw [List.mapM_cons] at hleaves
      obtain ⟨leaf, _, hrest⟩ := Option.bind_eq_some_iff.mp hleaves
      obtain ⟨others, hothers, hcons⟩ := Option.bind_eq_some_iff.mp hrest
      cases hcons
      rw [List.length_cons, List.length_cons, ih hothers]

/-- The bundle of a chain that checks out, under commitments to its head and
to its leaves. -/
theorem bundleOf_passes {keys : List VerifyingKey} {key : SigningKey}
    (hkey : P.verifyingKey key ∈ keys) {records : List RecordOut}
    (hfits : records.length < UInt64.size) {root : String}
    {leaves : List Bytes} (tsMs : UInt64)
    (hchain : (checkChain P 0 (some genesis)
      (records.map (RecordOut.stored P))).ok = true)
    (hsigs : (checkRecordSigs P keys 0 0 []
      (records.map (RecordOut.stored P))).1 = true)
    (hroot : ∀ record, records.getLast? = some record → record.hash = root)
    (hleaves : leavesOf (records.map (RecordOut.stored P)) = some leaves) :
    BundlePasses P
      (bundleOf P
        (signCheckpoint P key root (UInt64.ofNat records.length) tsMs)
        (signTreeHead P key (merkleRootHex P leaves)
          (UInt64.ofNat records.length) tsMs) records hfits) keys
      (signTreeHead P key (merkleRootHex P leaves)
        (UInt64.ofNat records.length) tsMs) where
  treeHead := rfl
  chain := hchain
  sigs := hsigs
  checkpointSig := List.any_eq_true.mpr
    ⟨_, hkey, verifyCheckpointSig_signCheckpoint P key _ _ _⟩
  treeHeadSig := List.any_eq_true.mpr
    ⟨_, hkey, verifyTreeHeadSig_signTreeHead P key _ _ _⟩
  last := by
    intro record hrecord
    simp only [bundleOf, List.getLast?_map, Option.map_eq_some_iff]
      at hrecord
    obtain ⟨last, hlast, rfl⟩ := hrecord
    exact hroot last hlast
  empty := by
    intro hnil
    have hrecords : records = [] := by simpa [bundleOf] using hnil
    simp [bundleOf, signCheckpoint, hrecords]
  count := by simp [bundleOf, signCheckpoint]
  treeSize := rfl
  merkleRoot := by
    intro _
    have hsame := leavesOf_of_checkChain P hchain
    rw [hleaves, Option.some.injEq] at hsame
    rw [hsame]
    rfl

/-- An earlier head over the first leaves is consistent with any later one. -/
theorem checkConsistency_signTreeHead {keys : List VerifyingKey}
    {key other : SigningKey} (hother : P.verifyingKey other ∈ keys)
    {leaves : List Bytes} {size : ℕ} (hpos : 1 ≤ size)
    (hle : size ≤ leaves.length) (hfits : leaves.length < UInt64.size)
    (tsMs later : UInt64) :
    checkConsistency P keys leaves
      (signTreeHead P other (merkleRootHex P (leaves.take size))
        (UInt64.ofNat size) tsMs)
      (signTreeHead P key (merkleRootHex P leaves)
        (UInt64.ofNat leaves.length) later) = true := by
  have hsize : (UInt64.ofNat size).toNat = size :=
    UInt64.toNat_ofNat_of_lt' (by omega)
  have hlength : (UInt64.ofNat leaves.length).toNat = leaves.length :=
    UInt64.toNat_ofNat_of_lt' hfits
  have hproof : consistencyProof P leaves size =
      some (Merkle.subproof (merkleHashing P) leaves size true) := by
    rw [consistencyProof, Merkle.consistencyProof, if_neg (by omega)]
  have hverify := Merkle.verifyConsistency_subproof
    (H := merkleHashing P) hpos hle
  have hsigned := verifyTreeHeadSig_signTreeHead P other
    (merkleRootHex P (leaves.take size)) (UInt64.ofNat size) tsMs
  unfold checkConsistency
  rw [Bool.and_eq_true, Bool.and_eq_true]
  refine ⟨⟨List.any_eq_true.mpr ⟨_, hother, hsigned⟩, ?_⟩, ?_⟩
  · simpa [signTreeHead, hsize] using hle
  · simp only [signTreeHead, hsize, hlength, hproof, Option.any_some,
      merkleRootHex, hexTo32_encode]
    exact hverify

/-! ## A bundle of one record -/

theorem one_lt_size : 1 < UInt64.size := by decide

/-- The bundle of one sealed record. -/
def oneRecordBundle (key : SigningKey) (entry : Entry) : BundleIn :=
  bundleOf P
    (signCheckpoint P key (sealRecord P key entry genesis).hash 1 0)
    (signTreeHead P key
      (merkleRootHex P [chainHash P
        (ByteText.encode (entryJson P entry)) genesis]) 1 0)
    [sealRecord P key entry genesis] one_lt_size

def oneRecordJson (key : SigningKey) (entry : Entry) : String :=
  bundleJson
    (signCheckpoint P key (sealRecord P key entry genesis).hash 1 0)
    (signTreeHead P key
      (merkleRootHex P [chainHash P
        (ByteText.encode (entryJson P entry)) genesis]) 1 0)
    ([sealRecord P key entry genesis].map (RecordOut.line P))

theorem oneRecord_passes (key : SigningKey) (entry : Entry) :
    BundlePasses P (oneRecordBundle P key entry) [P.verifyingKey key]
      (signTreeHead P key
        (merkleRootHex P [chainHash P
          (ByteText.encode (entryJson P entry)) genesis]) 1 0) := by
  have hdecode : HexText.decode (sealRecord P key entry genesis).hash =
      some (chainHash P (ByteText.encode (entryJson P entry)) genesis) := by
    rw [sealRecord, HexText.decode_encode]
  have hsigned : checkSigner P [] [P.verifyingKey key] 0
      (chainHash P (ByteText.encode (entryJson P entry)) genesis)
      (sealRecord P key entry genesis).sigB64
      (sealRecord P key entry genesis).kid = .ok _ :=
    checkSigner_sealed P (List.mem_singleton.mpr rfl) (.inr rfl) 0 _
  have hfits : [sealRecord P key entry genesis].length < UInt64.size :=
    one_lt_size
  refine bundleOf_passes P (List.mem_singleton.mpr rfl) hfits 0 ?_ ?_ ?_ ?_
  · simp only [List.map_cons, List.map_nil, checkChain, RecordOut.stored,
      hdecode]
    simp [sealRecord]
  · rw [List.map_cons, checkRecordSigs]
    simp only [RecordOut.stored, hdecode]
    have hseq : min ((0 : UInt64).toNat + 0) (UInt64.size - 1) = 0 := by
      decide
    rw [hseq, hsigned]
    rfl
  · intro record hrecord
    cases hrecord
    rfl
  · simp [leavesOf, RecordOut.stored, hdecode]

theorem readBundle_oneRecordJson (key : SigningKey) (entry : Entry) :
    readBundle P (oneRecordJson P key entry) =
      .ok (oneRecordBundle P key entry) :=
  readBundle_bundleJson P _ _ _ _

/-- It is accepted, also against its own tree head. -/
theorem oneRecord_accepted (key : SigningKey) (entry : Entry)
    (against : Option TreeHead)
    (hagainst : ∀ earlier, against = some earlier →
      (oneRecordBundle P key entry).treeHead = some earlier) :
    (verifyEvidenceBundle P (oneRecordJson P key entry)
      [P.verifyingKey key] against).accepted = true := by
  have hpasses := oneRecord_passes P key entry
  refine (verifyEvidenceBundle_accepted_iff P _ _ _).mpr
    ⟨_, readBundle_oneRecordJson P key entry, ?_⟩
  refine (judgeBundle_accepted_iff P _ _ _).mpr
    ⟨_, hpasses, fun earlier hearlier => ⟨rfl, ?_⟩⟩
  have hsame := hagainst earlier hearlier
  rw [hpasses.treeHead, Option.some.injEq] at hsame
  have hchain := hpasses.chain
  have hleaves : leavesOf (oneRecordBundle P key entry).records =
      some [chainHash P (ByteText.encode (entryJson P entry)) genesis] := by
    simp [leavesOf, oneRecordBundle, bundleOf, RecordOut.stored, sealRecord]
  have hown : leavesOf (oneRecordBundle P key entry).records =
      some (checkChain P 0 (some genesis)
        (oneRecordBundle P key entry).records).leaves :=
    leavesOf_of_checkChain P hchain
  rw [hleaves, Option.some.injEq] at hown
  have hfits : [chainHash P (ByteText.encode (entryJson P entry))
      genesis].length < UInt64.size := one_lt_size
  rw [← hown, ← hsame]
  exact checkConsistency_signTreeHead P (List.mem_singleton.mpr rfl)
    le_rfl le_rfl hfits 0 0

end Decern
