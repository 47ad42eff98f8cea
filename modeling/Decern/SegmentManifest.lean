import Decern.LedgerFiles
import Mathlib.Tactic

/-!
# Segment directories

A segmented ledger is a directory of numbered files and a manifest that names
them in order, the last of them the one written to.  The manifest is replaced
in one step; everything a rollover does before that step leaves at most a file
no manifest names.
-/

namespace Decern

open ByteText (Bytes newline)

/-- When the active segment rolls over. -/
structure RolloverPolicy where
  maxBytes : Option ℕ
  epochMs : Option UInt64
  deriving DecidableEq, Repr

structure SegmentMeta where
  file : String
  startSeq : ℕ
  endSeq : Option ℕ
  openedMs : UInt64
  deriving DecidableEq, Repr

structure Manifest where
  version : UInt32
  segments : List SegmentMeta
  deriving DecidableEq, Repr

def Manifest.active (manifest : Manifest) : Option SegmentMeta :=
  manifest.segments.find? fun segment => segment.endSeq.isNone

/-- The first unsealed segment, changed. -/
def changeActive (change : SegmentMeta → SegmentMeta) :
    List SegmentMeta → List SegmentMeta
  | [] => []
  | segment :: rest =>
      if segment.endSeq.isNone then change segment :: rest
      else segment :: changeActive change rest

/-! ## File names -/

def segmentSuffix : List Char := ".jsonl".toList

def segmentFilename (index : ℕ) : String :=
  String.ofList
    (List.leftpad 8 '0' (Nat.toDigits 10 index) ++ segmentSuffix)

/-- The index of a name of exactly eight digits and the suffix. -/
def validateSegmentFilename (file : String) : Except LedgerError ℕ :=
  let digits := file.toList.take (file.toList.length - segmentSuffix.length)
  if segmentSuffix.isSuffixOf file.toList ∧ digits.length = 8 ∧
      digits.all Char.isDigit then
    .ok (Nat.ofDigitChars 10 digits 0)
  else
    .error (.tamper 0 ("manifest names a segment file with an invalid " ++
      "shape: " ++ reprStr file ++ " (expected exactly 8 digits + " ++
      "\".jsonl\", e.g. 00000001.jsonl)"))

def parseIndex (file : String) : Option ℕ :=
  (validateSegmentFilename file).toOption

theorem length_leftpad_toDigits {index : ℕ} (hindex : index ≤ 99999999) :
    (List.leftpad 8 '0' (Nat.toDigits 10 index)).length = 8 := by
  have hlength : (Nat.toDigits 10 index).length ≤ 8 :=
    (Nat.length_toDigits_le_iff (by omega) (by omega)).mpr (by omega)
  rw [List.length_leftpad]
  omega

/-- The names rollovers give are valid. -/
theorem validateSegmentFilename_segmentFilename {index : ℕ}
    (hindex : index ≤ 99999999) :
    ∃ read, validateSegmentFilename (segmentFilename index) = .ok read := by
  have hlength := length_leftpad_toDigits hindex
  set digits := List.leftpad 8 '0' (Nat.toDigits 10 index) with hdigits
  have htake : (segmentFilename index).toList.take
      ((segmentFilename index).toList.length - segmentSuffix.length) =
        digits := by
    rw [segmentFilename, String.toList_ofList, ← hdigits,
      List.length_append, Nat.add_sub_cancel, List.take_left]
  have hall : digits.all Char.isDigit = true := by
    rw [hdigits, List.leftpad, List.all_append, all_isDigit]
    simp
  have hsuffix : segmentSuffix.isSuffixOf (segmentFilename index).toList =
      true := by
    rw [segmentFilename, String.toList_ofList, List.isSuffixOf_iff_suffix]
    exact List.suffix_append _ _
  refine ⟨Nat.ofDigitChars 10 digits 0, ?_⟩
  unfold validateSegmentFilename
  simp only [htake, hsuffix, hlength, hall, and_self, if_true]
where
  all_isDigit : (Nat.toDigits 10 index).all Char.isDigit = true := by
    rw [List.all_eq_true]
    intro c hc
    exact Nat.isDigit_of_mem_toDigits (by omega) (by omega) hc

/-! ## The manifest's shape -/

/-- Each segment ends where the next one starts. -/
def contiguous : List SegmentMeta → Except LedgerError Unit
  | [] => .ok ()
  | [_] => .ok ()
  | segment :: next :: rest =>
      if segment.endSeq = some next.startSeq then contiguous (next :: rest)
      else
        .error (.tamper 0 ("manifest segments " ++ reprStr segment.file ++
          " (end_seq " ++ reprStr segment.endSeq ++ ") and " ++
          reprStr next.file ++ " (start_seq " ++ toString next.startSeq ++
          ") are not contiguous — segments must be listed in order with no " ++
          "gap, overlap, or reordering"))

def validateManifestShape (manifest : Manifest) : Except LedgerError Unit :=
  let activeCount :=
    (manifest.segments.filter fun segment => segment.endSeq.isNone).length
  match manifest.segments with
  | [] =>
      .error (.tamper 0 ("manifest names zero segments — a valid segmented " ++
        "ledger always has at least one (segment::initialize never " ++
        "produces an empty list)"))
  | first :: _ =>
      if first.startSeq ≠ 0 then
        .error (.tamper 0 ("manifest's earliest segment " ++
          reprStr first.file ++ " starts at seq " ++
          toString first.startSeq ++ ", not 0 — the true chain head is " ++
          "missing from this manifest"))
      else if activeCount > 1 then
        .error (.tamper 0 ("manifest names " ++ toString activeCount ++
          " active (unsealed) segments — exactly one is valid"))
      else if activeCount = 1 ∧
          (manifest.segments.getLast?.all fun segment =>
            segment.endSeq.isSome) then
        .error (.tamper 0
          "manifest's active segment must be the last entry")
      else contiguous manifest.segments

/-! ## The directory -/

/-- A directory: its manifest, and its other files. -/
structure Directory where
  manifest : Option Manifest
  files : List (String × Bytes)

namespace Directory

def read (dir : Directory) (name : String) : Option Bytes :=
  dir.files.lookup name

def write (dir : Directory) (name : String) (content : Bytes) : Directory :=
  { dir with
    files := (name, content) ::
      dir.files.filter fun file => file.1 != name }

theorem lookup_filter_ne (files : List (String × Bytes))
    {name other : String} (hne : other ≠ name) :
    (files.filter fun file => file.1 != name).lookup other =
      files.lookup other := by
  induction files with
  | nil => rfl
  | cons file rest ih =>
      obtain ⟨key, content⟩ := file
      by_cases hkey : key = name
      · subst hkey
        have hother : (other == key) = false := by simpa using hne
        simp [List.lookup_cons, hother, ih]
      · simp [hkey, List.lookup_cons, ih]

theorem read_write (dir : Directory) (name other : String)
    (content : Bytes) :
    (dir.write name content).read other =
      if other = name then some content else dir.read other := by
  unfold read write
  split
  case isTrue heq => simp [heq]
  case isFalse hne =>
    have hother : (other == name) = false := by simpa using hne
    rw [List.lookup_cons, hother]
    exact lookup_filter_ne dir.files hne

@[simp] theorem manifest_write (dir : Directory) (name : String)
    (content : Bytes) : (dir.write name content).manifest = dir.manifest :=
  rfl

end Directory

/-- The steps at which a segmented ledger's own file operations can fail. -/
inductive SegmentSite where
  | createDir
  | readManifest
  | scan
  | create
  | syncOld
  | manifestWrite
  | manifestSync
  | openNew
  | metadata
  deriving DecidableEq, Repr

structure SegmentFault where
  site : SegmentSite
  err : String

def SegmentFault.at (fault : Option SegmentFault) (site : SegmentSite) :
    Option String :=
  fault.bind fun fault =>
    if fault.site = site then some fault.err else none

@[simp] theorem SegmentFault.at_none (site : SegmentSite) :
    SegmentFault.at none site = none := rfl

def loadManifest (fault : Option SegmentFault) (dir : Directory) :
    Except LedgerError (Option Manifest) :=
  match SegmentFault.at fault .readManifest with
  | some err => .error (.io "manifest.json" err)
  | none =>
      match dir.manifest with
      | none => .ok none
      | some manifest =>
          match manifest.segments.mapM fun segment =>
              validateSegmentFilename segment.file with
          | .error error => .error error
          | .ok _ =>
              match validateManifestShape manifest with
              | .error error => .error error
              | .ok () => .ok (some manifest)

/-- How an atomic write failed: before its rename, or after it. -/
inductive AtomicWrite where
  | notLanded (error : LedgerError)
  | landed (error : LedgerError)

def AtomicWrite.error : AtomicWrite → LedgerError
  | .notLanded error => error
  | .landed error => error

def saveManifest (fault : Option SegmentFault) (dir : Directory)
    (manifest : Manifest) : Directory × Except AtomicWrite Unit :=
  match SegmentFault.at fault .manifestWrite with
  | some err => (dir, .error (.notLanded (.io "manifest.json" err)))
  | none =>
      match SegmentFault.at fault .manifestSync with
      | some err =>
          ({ dir with manifest := manifest },
            .error (.landed (.io "manifest.json" err)))
      | none => ({ dir with manifest := manifest }, .ok ())

/-- A new segment file, refused when the name is taken. -/
def createSegment (fault : Option SegmentFault) (dir : Directory)
    (name : String) : Directory × Except LedgerError Unit :=
  match SegmentFault.at fault .create with
  | some err => (dir, .error (.io name err))
  | none =>
      match dir.read name with
      | some _ => (dir, .error (.io name "File exists"))
      | none => (dir.write name [], .ok ())

/-- The files the manifest names, in order. -/
def segmentFiles (dir : Directory) :
    List SegmentMeta → Except LedgerError (List LedgerFile)
  | [] => .ok []
  | segment :: rest =>
      match dir.read segment.file with
      | none =>
          .error (.tamper segment.startSeq ("segment " ++ segment.file ++
            " is listed in the manifest but missing from disk (tail- or " ++
            "mid-truncation, or a corrupted deployment)"))
      | some content =>
          (segmentFiles dir rest).map (⟨segment.file, content⟩ :: ·)

def segmentPaths (dir : Directory) :
    Except LedgerError (List LedgerFile) :=
  match loadManifest none dir with
  | .error error => .error error
  | .ok none =>
      .error (.io "." ("segmented ledger directory has no manifest.json " ++
        "(not a valid segmented ledger — use Ledger::open_segmented to " ++
        "create one)"))
  | .ok (some manifest) => segmentFiles dir manifest.segments

/-- The segment every ledger starts with. -/
def firstSegment : SegmentMeta where
  file := segmentFilename 1
  startSeq := 0
  endSeq := none
  openedMs := 0

def firstManifest : Manifest where
  version := 1
  segments := [firstSegment]

/-- `segment::initialize`: the first segment's file, then its manifest. -/
def initializeSegments (fault : Option SegmentFault) (dir : Directory) :
    Directory × Except LedgerError Manifest :=
  match createSegment fault dir firstSegment.file with
  | (dir, .error error) => (dir, .error error)
  | (dir, .ok ()) =>
      match saveManifest fault dir firstManifest with
      | (dir, .error failed) => (dir, .error failed.error)
      | (dir, .ok ()) => (dir, .ok firstManifest)

/-! ## Rolling over -/

/-- The highest index the manifest or the directory names. -/
def maxIndex (fault : Option SegmentFault) (dir : Directory)
    (manifest : Manifest) : Except LedgerError ℕ :=
  match SegmentFault.at fault .scan with
  | some err => .error (.io "." err)
  | none =>
      .ok (((manifest.segments.map SegmentMeta.file ++
        dir.files.map Prod.fst).filterMap parseIndex).foldl max 0)

/-- The manifest a rollover commits. -/
def Manifest.rolled (manifest : Manifest) (file : String) (currentSeq : ℕ)
    (nextTsMs : UInt64) : Manifest :=
  { manifest with
    segments := changeActive
        (fun segment => { segment with endSeq := some currentSeq })
        manifest.segments ++
      [{ file := file
         startSeq := currentSeq
         endSeq := none
         openedMs := nextTsMs }] }

/-- The steps of a rollover before its commit: the next segment's file and
the manifest that names it. -/
def rollOverPrepared (fault : Option SegmentFault) (dir : Directory)
    (manifest : Manifest) (currentSeq : ℕ) (nextTsMs : UInt64) :
    Directory × Except LedgerError (Manifest × String) :=
  match maxIndex fault dir manifest with
  | .error error => (dir, .error error)
  | .ok index =>
      if 2 ^ 32 ≤ index + 1 then
        (dir, .error (.io "." "segment index exhausted (at u32::MAX)"))
      else if 99999999 < index + 1 then
        (dir, .error (.io "." ("segment index exhausted: the next segment " ++
          "index (" ++ toString (index + 1) ++ ") no longer fits the " ++
          "8-digit segment filename shape this ledger's segments use — " ++
          "this deployment has performed the maximum ~100,000,000 " ++
          "supported segment rollovers")))
      else
        let file := segmentFilename (index + 1)
        match createSegment fault dir file with
        | (dir, .error error) => (dir, .error error)
        | (dir, .ok ()) =>
            match manifest.active with
            | none =>
                (dir, .error (.io "." ("segmented ledger manifest has no " ++
                  "active segment to seal")))
            | some old =>
                match SegmentFault.at fault .syncOld with
                | some err => (dir, .error (.io old.file err))
                | none =>
                    (dir, .ok (manifest.rolled file currentSeq nextTsMs,
                      file))

/-- A rollover that failed, and whether its manifest landed first. -/
structure RollOverFailed where
  landed : Bool
  err : LedgerError

/-- `segment::roll_over`: saving the manifest is the commit. -/
def rollOverSegments (fault : Option SegmentFault) (dir : Directory)
    (manifest : Manifest) (currentSeq : ℕ) (nextTsMs : UInt64) :
    Directory × Except RollOverFailed (Manifest × String) :=
  match rollOverPrepared fault dir manifest currentSeq nextTsMs with
  | (dir, .error error) => (dir, .error { landed := false, err := error })
  | (dir, .ok (rolled, file)) =>
      match saveManifest fault dir rolled with
      | (dir, .error (.notLanded error)) =>
          (dir, .error { landed := false, err := error })
      | (dir, .error (.landed error)) =>
          (dir, .error { landed := true, err := error })
      | (dir, .ok ()) => (dir, .ok (rolled, file))

end Decern
