import Decern.HeadStoreMemory
import Mathlib.Tactic

/-!
# The shard listing

The shards with committed history among the entries of a directory.  A shard
is judged by what its files hold when they are read, and any one of its data
files lists it; every read finds the files as they are at its turn.
-/

namespace Decern

open ByteText (Bytes)

/-- How the listing words what it cannot read. -/
structure ListingText where
  quoted : String → String
  utf8Error : Bytes → String

variable (root : String) (text : ListingText)

/-! ## Names -/

/-- `name.strip_suffix(suffix)`. -/
def stripSuffix (name suffix : String) : Option String :=
  if suffix.toList <:+ name.toList then
    some (String.ofList (name.toList.take
      (name.toList.length - suffix.toList.length)))
  else none

inductive DataFile where
  | head
  | shard
  | log
  deriving DecidableEq, Repr

def DataFile.extension : DataFile → String
  | .head => ".head"
  | .shard => ".shard"
  | .log => ".log"

/-- The stem and the kind of a shard's data file; lock and temporary files
have none. -/
def dataFile (name : String) : Option (String × DataFile) :=
  match stripSuffix name ".head" with
  | some stem => some (stem, .head)
  | none =>
      match stripSuffix name ".shard" with
      | some stem => some (stem, .shard)
      | none => (stripSuffix name ".log").map fun stem => (stem, .log)

def shardFromHex (stem : String) : Except StoreError String :=
  let named := "ledger shard file stem " ++ text.quoted stem
  if (ByteText.encode stem).length % 2 ≠ 0 then
    .error (.invalid (named ++ " is not valid hex (odd length)"))
  else
    match HexText.decode stem with
    | none => .error (.invalid (named ++ " is not valid hex"))
    | some bytes =>
        match ByteText.decode bytes with
        | none => .error (.invalid (named ++ " decodes to non-UTF-8: " ++
            text.utf8Error bytes))
        | some shard => .ok shard

/-- The name of a shard's file. -/
def dataFileName (shard : String) (kind : DataFile) : String :=
  shardToHex shard ++ kind.extension

/-! ## Reads -/

/-- The files of a shard as the read of each turn finds them, if it does. -/
abbrev Looks := ℕ → String → Except StoreError ShardDisk

/-- What is read turn by turn. -/
abbrev Listing (α : Type) := StateT ℕ (Except StoreError) α

section Reads

variable {α : Type} (look : Looks) (files : ShardFiles) (shard : String)

def lookAt (read : ShardDisk → Except StoreError α) : Listing α :=
  fun turn => do
    let disk ← look turn shard
    let found ← read disk
    return (found, turn + 1)

/-- `files.head.exists()`, which takes a failed read for no. -/
def headExists : Listing Bool :=
  fun turn => .ok
    (match look turn shard with
      | .ok disk => decide (disk.head ≠ .absent)
      | .error _ => false, turn + 1)

def headListed : Listing Bool := do
  let head ← lookAt look shard fun disk => readHead files disk.head
  return (head.bind FileHead.cursor).isSome

/-- A marker found after no head may be of a conversion that finished between
the two reads, so the head is read again. -/
def listedByShard : Listing Bool := do
  if ← headListed look files shard then return true
  else
    match ← lookAt look shard fun disk => readBeside files disk.shardFile with
    | .earlier old => return old.cursor.isSome
    | .marker => headListed look files shard
    | .missing => return false

/-- A marker, and now a head beside it. -/
def convertedSince (beside : Beside) : Listing Bool :=
  if beside = .marker then headExists look shard else pure false

def listedByLog : Listing Bool := do
  if ← headExists look shard then headListed look files shard
  else
    let beside ← lookAt look shard fun disk =>
      readBeside files disk.shardFile
    if ← convertedSince look shard beside then headListed look files shard
    else if beside.converts then return true
    else
      lookAt look shard fun disk => refuseOrphanLog files disk.log beside
      return false

def listedBy : DataFile → Listing Bool
  | .head => headListed look files shard
  | .shard => listedByShard look files shard
  | .log => listedByLog look files shard

end Reads

/-! ## The listing -/

/-- One entry, and the shards listed with it. -/
def listName (look : Looks) (out : Std.ExtTreeSet String) (name : String) :
    Listing (Std.ExtTreeSet String) :=
  match dataFile name with
  | none => return out
  | some (stem, kind) => do
      let shard ← (shardFromHex text stem : Except StoreError String)
      let files ← (filesOf root shard text.utf8Error :
        Except StoreError ShardFiles)
      if ← listedBy look files shard kind then return out.insert shard
      else return out

def listNamed (look : Looks) (names : List String) : Listing (List String) := do
  let out ← names.foldlM (listName root text look) ∅
  return out.toList

/-- The shards of a directory whose entries were read, if it is there. -/
def listShards (look : Looks)
    (entries : Except StoreError (Option (List String))) :
    Listing (List String) := do
  match ← (entries : Except StoreError (Option (List String))) with
  | none => return []
  | some names => listNamed root text look names

def ShardDisk.Has (disk : ShardDisk) : DataFile → Prop
  | .head => disk.head ≠ .absent
  | .shard => disk.shardFile ≠ .absent
  | .log => disk.log ≠ none

/-- A directory: its entries, if it is there, and the files of each shard that
are among them. -/
structure LedgerDir where
  entries : Option (List String)
  disk : String → ShardDisk
  entry : ∀ shard kind, (disk shard).Has kind ↔
    dataFileName shard kind ∈ entries.getD []

end Decern
