import Decern.ShardListingRuns
import Mathlib.Tactic

/-!
# Stems and shards

A shard's stem is written in lowercase digits and read in either case.  A stem
with a capital in it is therefore read as a shard whose files have another
name.
-/

namespace Decern

open ByteText (Bytes)

def ShardFiles.path (files : ShardFiles) : DataFile → String
  | .head => files.head
  | .shard => files.shardFile
  | .log => files.log

theorem path_filesOf {root shard : String} {utf8Error : Bytes → String}
    {files : ShardFiles} (hfiles : filesOf root shard utf8Error = .ok files)
    (kind : DataFile) :
    files.path kind = root ++ "/" ++ shardToHex shard ++ kind.extension := by
  unfold filesOf at hfiles
  split at hfiles
  case isTrue => cases hfiles
  case isFalse =>
    cases hfiles
    cases kind <;> rfl

/-! ## Stems -/

theorem stripSuffix_eq_some {name suffix stem : String}
    (hstem : stripSuffix name suffix = some stem) : name = stem ++ suffix := by
  unfold stripSuffix at hstem
  split at hstem
  case isFalse => cases hstem
  case isTrue hsuffix =>
    obtain ⟨before, hbefore⟩ := hsuffix
    have hname : before ++ suffix.toList = name.toList := hbefore
    rw [← hname, List.length_append, Nat.add_sub_cancel,
      List.take_left] at hstem
    rw [← Option.some.inj hstem, ← String.toList_inj, String.toList_append,
      String.toList_ofList, hname]

theorem dataFile_eq_some {name stem : String} {kind : DataFile}
    (hname : dataFile name = some (stem, kind)) :
    name = stem ++ kind.extension := by
  unfold dataFile at hname
  split at hname
  case h_1 found hhead =>
    cases hname
    exact stripSuffix_eq_some hhead
  case h_2 =>
    split at hname
    case h_1 found hshard =>
      cases hname
      exact stripSuffix_eq_some hshard
    case h_2 =>
      obtain ⟨found, hlog, hpair⟩ := Option.map_eq_some_iff.mp hname
      cases hpair
      exact stripSuffix_eq_some hlog

/-- No digit of the stem is a capital. -/
def LowercaseStem (stem : String) : Prop :=
  ∀ c ∈ stem.toList, c.isUpper = false

section Stems

variable {root : String} {text : ListingText} {stem shard : String}

theorem decode_of_shardFromHex (hshard : shardFromHex text stem = .ok shard) :
    HexText.decode stem = some (ByteText.encode shard) := by
  unfold shardFromHex at hshard
  simp only at hshard
  split at hshard
  case isTrue => cases hshard
  case isFalse =>
    split at hshard
    case h_1 => cases hshard
    case h_2 bytes hbytes =>
      split at hshard
      case h_1 => cases hshard
      case h_2 found hfound =>
        cases hshard
        rw [hbytes, ByteText.encode_of_decode hfound]

theorem shardToHex_eq_iff (hshard : shardFromHex text stem = .ok shard) :
    shardToHex shard = stem ↔ LowercaseStem stem :=
  HexText.encode_eq_iff (decode_of_shardFromHex hshard)

end Stems

/-! ## A directory -/

/-- An entry that is a shard's data file by its name. -/
structure NamesShard (text : ListingText) (name stem : String)
    (kind : DataFile) (shard : String) : Prop where
  file : dataFile name = some (stem, kind)
  decoded : shardFromHex text stem = .ok shard

/-- Each shard has one stem, and is judged by the file that named it. -/
structure OneStemEach (root : String) (text : ListingText)
    (names : List String) : Prop where
  injective : ∀ left ∈ names, ∀ right ∈ names,
    ∀ stem kind other kind' shard,
      NamesShard text left stem kind shard →
      NamesShard text right other kind' shard → stem = other
  found : ∀ name ∈ names, ∀ stem kind shard files,
    NamesShard text name stem kind shard →
    filesOf root shard text.utf8Error = .ok files →
      files.path kind = root ++ "/" ++ name

theorem oneStemEach_iff (root : String) (text : ListingText)
    (names : List String) :
    OneStemEach root text names ↔
      ∀ name ∈ names, ∀ stem kind shard,
        NamesShard text name stem kind shard → LowercaseStem stem := by
  constructor
  · intro hnames name hname stem kind shard hfile
    rw [← shardToHex_eq_iff hfile.decoded]
    by_cases hempty : shard = ""
    · have hdecode := decode_of_shardFromHex hfile.decoded
      rw [hempty] at hdecode ⊢
      exact (HexText.eq_empty_of_decode hdecode).symm
    · have hfiles : ∃ files, filesOf root shard text.utf8Error =
          .ok files := by
        rw [filesOf, if_neg hempty]
        exact ⟨_, rfl⟩
      obtain ⟨files, hfiles⟩ := hfiles
      have hpath := hnames.found name hname stem kind shard files hfile hfiles
      rw [path_filesOf hfiles, dataFile_eq_some hfile.file,
        String.append_assoc, ← String.toList_inj] at hpath
      simp only [String.toList_append] at hpath
      exact String.toList_inj.mp
        (List.append_cancel_right (List.append_cancel_left hpath))
  · intro hlower
    constructor
    · intro left hleft right hright stem kind other kind' shard hfirst
        hsecond
      have hstem := (shardToHex_eq_iff hfirst.decoded).mpr
        (hlower left hleft stem kind shard hfirst)
      have hother := (shardToHex_eq_iff hsecond.decoded).mpr
        (hlower right hright other kind' shard hsecond)
      rw [← hstem, hother]
    · intro name hname stem kind shard files hfile hfiles
      have hstem := (shardToHex_eq_iff hfile.decoded).mpr
        (hlower name hname stem kind shard hfile)
      rw [path_filesOf hfiles, hstem, dataFile_eq_some hfile.file,
        String.append_assoc]

/-! ## The law -/

/-- Every name is read back from its stem; a stem that decodes is the one its
shard is written with exactly when it has no capital, and a directory of such
stems alone has one for each shard. -/
theorem shard_names_bijective_iff (root : String) (text : ListingText)
    (names : List String) :
    (∀ shard : String, shardFromHex text (shardToHex shard) = .ok shard) ∧
    (∀ stem shard : String, shardFromHex text stem = .ok shard →
      (shardToHex shard = stem ↔ LowercaseStem stem)) ∧
    (OneStemEach root text names ↔
      ∀ name ∈ names, ∀ stem kind shard,
        NamesShard text name stem kind shard → LowercaseStem stem) := by
  refine ⟨?_, ?_, ?_⟩
  · intro shard
    exact shardFromHex_shardToHex text shard
  · intro stem shard hshard
    exact shardToHex_eq_iff hshard
  · exact oneStemEach_iff root text names

def sampleListingText : ListingText where
  quoted := reprStr
  utf8Error := fun _ => "invalid utf-8 sequence"

theorem shard_names_bijective_iff_sample :
    shardToHex "J" = "4a" ↔ LowercaseStem "4a" :=
  (shard_names_bijective_iff "" sampleListingText []).2.1 "4a" "J"
    (shardFromHex_shardToHex sampleListingText "J")

theorem shardFromHex_capital :
    shardFromHex sampleListingText "4A" = .ok "J" := by
  decide +kernel

/-- A stem in capitals is read as the shard of another stem. -/
theorem capital_stem_not_canonical :
    ¬ ∀ (text : ListingText) (stem shard : String),
      shardFromHex text stem = .ok shard → shardToHex shard = stem := by
  intro hclaim
  have hstem := hclaim sampleListingText "4A" "J" shardFromHex_capital
  have hlower : LowercaseStem "4A" :=
    (shardToHex_eq_iff shardFromHex_capital).mp hstem
  have hcapital : 'A' ∈ "4A".toList := by decide
  exact absurd (hlower 'A' hcapital) (by decide)

end Decern
