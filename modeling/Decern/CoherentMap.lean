import Decern.HeadStore
import Mathlib.Tactic

/-!
# The coherent map

One map in a file, and a copy of it in every handle.  A read trusts the
handle's copy while the file has the fingerprint the copy was taken at; a
write starts from the file, and saves what it made of the map if it says so.
-/

namespace Decern

/-- A map from strings, ordered by key. -/
abbrev StringMap (V : Type) := Std.ExtTreeMap String V

structure FileFingerprint where
  ino : ℕ
  size : ℕ
  mtime : ℤ × ℕ
  deriving DecidableEq, Repr

/-- The file of a map, and how often it has been replaced. -/
structure MapFile (V : Type) where
  content : Stored (StringMap V)
  version : ℕ

/-- The path of the file, and the fingerprint of each of its versions. -/
structure MapPath (V : Type) where
  path : String
  fingerprintOf : ℕ → Stored (StringMap V) → FileFingerprint

/-- The fingerprint changes whenever the content does: two versions with one
fingerprint have one content. -/
def MapPath.Distinguishes {V : Type} (place : MapPath V) : Prop :=
  ∀ version content version' content',
    place.fingerprintOf version content =
      place.fingerprintOf version' content' →
    version = version' ∨ content = content'

structure CoherentCache (V : Type) where
  map : StringMap V
  fp : Option FileFingerprint

variable {V R : Type} (place : MapPath V)

def fileFingerprint (file : MapFile V) : Option FileFingerprint :=
  match file.content with
  | .absent => none
  | content => some (place.fingerprintOf file.version content)

def readCoherentMap (file : MapFile V) : Except StoreError (StringMap V) :=
  match file.content with
  | .absent => .ok ∅
  | .holds map => .ok map
  | .unreadable message => .error (.serde message)

namespace CoherentMap

/-- A new handle, and the file it leaves: an absent one is created. -/
def openFile (file : MapFile V) :
    Except StoreError (MapFile V × CoherentCache V) := do
  let map ← readCoherentMap file
  let file : MapFile V := match file.content with
    | .absent => ⟨.holds map, file.version + 1⟩
    | _ => file
  return (file, ⟨map, fileFingerprint place file⟩)

/-- The copy a read answers from. -/
def read (file : MapFile V) (cache : CoherentCache V) :
    Except StoreError (CoherentCache V) :=
  if fileFingerprint place file = cache.fp then .ok cache
  else
    match fileFingerprint place file with
    | some fp => do
        let map ← readCoherentMap file
        return ⟨map, some fp⟩
    | none => .error (.invalid ("store file " ++ place.path ++
        " disappeared after being present — refusing to serve a " ++
        "stale/empty view (possible tampering)"))

/-- The update's changed map becomes the handle's copy, saved or not. -/
def write (update : StringMap V → StringMap V × R × Bool)
    (file : MapFile V) :
    Except StoreError (MapFile V × CoherentCache V × R) := do
  let found ← readCoherentMap file
  let (map, result, dirty) := update found
  let file : MapFile V :=
    if dirty then ⟨.holds map, file.version + 1⟩ else file
  return (file, ⟨map, fileFingerprint place file⟩, result)

end CoherentMap

/-! ## Files that hold a map -/

section Holds

variable {map : StringMap V} {version : ℕ}

theorem fileFingerprint_holds :
    fileFingerprint place ⟨.holds map, version⟩ =
      some (place.fingerprintOf version (.holds map)) := rfl

theorem openFile_holds :
    CoherentMap.openFile place ⟨.holds map, version⟩ =
      .ok (⟨.holds map, version⟩,
        ⟨map, some (place.fingerprintOf version (.holds map))⟩) := rfl

theorem openFile_absent :
    CoherentMap.openFile place ⟨.absent, version⟩ =
      .ok (⟨.holds (∅ : StringMap V), version + 1⟩,
        ⟨∅, some (place.fingerprintOf (version + 1) (.holds ∅))⟩) := rfl

theorem write_holds (update : StringMap V → StringMap V × R × Bool) :
    CoherentMap.write place update ⟨.holds map, version⟩ =
      let changed := update map
      let file : MapFile V := if changed.2.2 then
        ⟨.holds changed.1, version + 1⟩ else ⟨.holds map, version⟩
      .ok (file, ⟨changed.1, fileFingerprint place file⟩, changed.2.1) := rfl

/-- A read answers from the file's map or from a copy of the same map. -/
theorem read_holds (cache : CoherentCache V) :
    CoherentMap.read place ⟨.holds map, version⟩ cache =
      .ok (if some (place.fingerprintOf version (.holds map)) = cache.fp then
        cache
      else ⟨map, some (place.fingerprintOf version (.holds map))⟩) := by
  unfold CoherentMap.read
  rw [fileFingerprint_holds]
  split
  case isTrue => rfl
  case isFalse => rfl

end Holds

/-- A copy taken of the file as it is or of an earlier version, of whose
entries it may have dropped some. -/
def CoherentCache.CopyOf (cache : CoherentCache V) (file : MapFile V) :
    Prop :=
  ∃ taken copied,
    cache.fp = some (place.fingerprintOf taken (.holds copied)) ∧
    (∀ (key : String) (value : V), cache.map[key]? = some value →
      copied[key]? = some value) ∧
    taken ≤ file.version ∧
    (taken = file.version → file.content = .holds copied)

/-- The copy of a file just read. -/
theorem copyOf_holds {map kept : StringMap V} {version : ℕ}
    (hkept : ∀ (key : String) (value : V), kept[key]? = some value →
      map[key]? = some value) :
    CoherentCache.CopyOf place
      ⟨kept, some (place.fingerprintOf version (.holds map))⟩
      ⟨.holds map, version⟩ :=
  ⟨version, map, rfl, hkept, le_refl _, fun _ => rfl⟩

theorem CoherentCache.CopyOf.replaced {cache : CoherentCache V}
    {file file' : MapFile V} (hcopy : cache.CopyOf place file)
    (hversion : file.version < file'.version) :
    cache.CopyOf place file' := by
  obtain ⟨taken, copied, hfp, hkept, hle, -⟩ := hcopy
  exact ⟨taken, copied, hfp, hkept, by omega, by omega⟩

/-- A copy with the fingerprint of the file is of what the file holds. -/
theorem CoherentCache.CopyOf.current {cache : CoherentCache V}
    {map : StringMap V} {version : ℕ} (hplace : place.Distinguishes)
    (hcopy : cache.CopyOf place ⟨.holds map, version⟩)
    (hsame : some (place.fingerprintOf version (.holds map)) = cache.fp)
    {key : String} {value : V} (hfound : cache.map[key]? = some value) :
    map[key]? = some value := by
  obtain ⟨taken, copied, hfp, hkept, -, hcurrent⟩ := hcopy
  have hcopied : (Stored.holds map : Stored (StringMap V)) =
      .holds copied := by
    rw [hfp, Option.some.injEq] at hsame
    rcases hplace _ _ _ _ hsame with htaken | hcontent
    · exact hcurrent htaken.symm
    · exact hcontent
  cases hcopied
  exact hkept key value hfound

/-- What a read finds, the file has. -/
theorem getElem?_of_read {cache found : CoherentCache V}
    {map : StringMap V} {version : ℕ} (hplace : place.Distinguishes)
    (hcopy : cache.CopyOf place ⟨.holds map, version⟩)
    (hread : CoherentMap.read place ⟨.holds map, version⟩ cache = .ok found)
    {key : String} {value : V} (hfound : found.map[key]? = some value) :
    map[key]? = some value := by
  rw [read_holds] at hread
  by_cases hsame :
      some (place.fingerprintOf version (.holds map)) = cache.fp
  · rw [if_pos hsame] at hread
    cases hread
    exact hcopy.current place hplace hsame hfound
  · rw [if_neg hsame] at hread
    cases hread
    exact hfound

end Decern
