import Decern.SerdeText
import Mathlib.Tactic

/-!
# Derived readers

What `#[derive(Deserialize)]` generates for a struct, over any source of
trees: an object is read by member name, unknown members are ignored and a
repeated field is refused; an array is read positionally; a field under
`#[serde(default)]` may be absent.  The generated readers go through the
members as they stand in the text; these go through the fields, so of several
errors in one object they may report another.  What is read is the same.
-/

namespace Serde

open JsonText (Doc Outline Spanned)

inductive SerdeError where
  | missingField (name : String)
  | duplicateField (name : String)
  | invalidType (expected : String)
  | invalidLength (length : ℕ)
  | noVariant (name : String)
  | unreadable
  deriving DecidableEq, Repr

/-- One level of a tree, as a reader meets it. -/
inductive Shape (δ : Type) where
  | null
  | bool (value : Bool)
  | number
  | string (value : String)
  | array (items : List δ)
  | object (members : List (String × δ))
  | unreadable

/-- What readers need of a tree: its shape, the natural number it is, and the
value it is when some brackets are already open around it. -/
structure Source (δ : Type) where
  shape : δ → Shape δ
  natural : δ → Option ℕ
  value : ℕ → δ → Option Value

/-- Member names decoded; one that does not decode spoils the object. -/
def namedMembers {δ : Type}
    (members : List (List JsonText.StringUnit × δ)) :
    Option (List (String × δ)) :=
  members.mapM fun member =>
    (JsonText.text member.1).map fun name => (name, member.2)

def valueSource : Source Value where
  shape
    | .null => .null
    | .bool value => .bool value
    | .number _ => .number
    | .string value => .string value
    | .array items => .array items
    | .object members => .object members
  natural
    | .number (.posInt value) => some value.toNat
    | _ => none
  value _ value := some value

def docShape (floats : FloatText) : Doc → Shape Doc
  | .null => .null
  | .bool value => .bool value
  | .number text =>
      if (Number.ofText floats text).isSome then .number else .unreadable
  | .string units =>
      match JsonText.text units with
      | some value => .string value
      | none => .unreadable
  | .array items => .array items
  | .object members =>
      match namedMembers members with
      | some members => .object members
      | none => .unreadable

def docSource (floats : FloatText) : Source Doc where
  shape := docShape floats
  natural
    | .number text => Serde.natural text
    | _ => none
  value := readValue floats

/-- The shape of a whole text, each child with its own text. -/
def outlineShape (floats : FloatText) : Outline → Shape Spanned
  | .leaf doc =>
      match docShape floats doc with
      | .null => .null
      | .bool value => .bool value
      | .number => .number
      | .string value => .string value
      | _ => .unreadable
  | .array items => .array items
  | .object members =>
      match namedMembers members with
      | some members => .object members
      | none => .unreadable

/-- A chain of reads succeeds when each of them does. -/
theorem bind_eq_ok {ε α β : Type} {first : Except ε α}
    {next : α → Except ε β} {result : β} :
    (first >>= next) = .ok result ↔
      ∃ value, first = .ok value ∧ next value = .ok result := by
  cases first with
  | error error => simp [bind, Except.bind]
  | ok value => simp [bind, Except.bind]

/-! ## Fields -/

section Fields

variable {δ : Type} {α : Type}

/-- The one member of a name. -/
def member (members : List (String × δ)) (name : String) :
    Except SerdeError (Option δ) :=
  match members.filter fun member => member.1 == name with
  | [] => .ok none
  | [(_, value)] => .ok (some value)
  | _ :: _ :: _ => .error (.duplicateField name)

/-- A struct is read from an object, or from an array no longer than it. -/
def expectStruct (count : ℕ) : Shape δ → Except SerdeError Unit
  | .object _ => .ok ()
  | .array items =>
      if items.length ≤ count then .ok ()
      else .error (.invalidLength items.length)
  | _ => .error (.invalidType "struct")

def field (shape : Shape δ) (index : ℕ) (name : String) :
    Except SerdeError (Option δ) :=
  match shape with
  | .object members => member members name
  | .array items => .ok items[index]?
  | _ => .error (.invalidType "struct")

/-- A field that must be there. -/
def required (shape : Shape δ) (index : ℕ) (name : String)
    (read : δ → Except SerdeError α) : Except SerdeError α := do
  match ← field shape index name with
  | some value => read value
  | none =>
      match shape with
      | .array items => .error (.invalidLength items.length)
      | _ => .error (.missingField name)

/-- A field under `#[serde(default)]`. -/
def defaulted (shape : Shape δ) (index : ℕ) (name : String) (default : α)
    (read : δ → Except SerdeError α) : Except SerdeError α := do
  match ← field shape index name with
  | some value => read value
  | none => .ok default

end Fields

section Readers

variable {δ : Type} {α : Type} (source : Source δ)

def readString (tree : δ) : Except SerdeError String :=
  match source.shape tree with
  | .string value => .ok value
  | .unreadable => .error .unreadable
  | _ => .error (.invalidType "a string")

def readBool (tree : δ) : Except SerdeError Bool :=
  match source.shape tree with
  | .bool value => .ok value
  | _ => .error (.invalidType "a boolean")

/-- A `u64` whose limit no reader relies on. -/
def readNatural (tree : δ) : Except SerdeError ℕ :=
  match source.natural tree with
  | some value => .ok value
  | none => .error (.invalidType "u64")

def readU64 (tree : δ) : Except SerdeError UInt64 :=
  match source.natural tree with
  | some value =>
      if value < 2 ^ 64 then .ok (UInt64.ofNat value)
      else .error (.invalidType "u64")
  | none => .error (.invalidType "u64")

/-- An `Option`: `null` is absent. -/
def readOption (read : δ → Except SerdeError α) (tree : δ) :
    Except SerdeError (Option α) :=
  match source.shape tree with
  | .null => .ok none
  | _ => (read tree).map some

def readVec (read : δ → Except SerdeError α) (tree : δ) :
    Except SerdeError (List α) :=
  match source.shape tree with
  | .array items => items.mapM read
  | _ => .error (.invalidType "a sequence")

def readAnyValue (depth : ℕ) (tree : δ) : Except SerdeError Value :=
  match source.value depth tree with
  | some value => .ok value
  | none => .error .unreadable

/-- A `Map<String, Value>`. -/
def readMap (depth : ℕ) (tree : δ) : Except SerdeError Map :=
  match source.shape tree with
  | .object _ =>
      match source.value depth tree with
      | some (.object members) => .ok members
      | _ => .error .unreadable
  | _ => .error (.invalidType "a map")

/-- A `BTreeMap<String, String>`, its members as they are written. -/
def readStringMap (tree : δ) : Except SerdeError (List (String × String)) :=
  match source.shape tree with
  | .object members =>
      members.mapM fun member =>
        (readString source member.2).map fun value => (member.1, value)
  | _ => .error (.invalidType "a map")

end Readers

/-! ## Structs as `#[derive(Serialize)]` writes them -/

open JsonText (StringUnit)

def stringDoc (value : String) : Doc :=
  .string (JsonText.ofString value)

def objectDoc (members : List (String × Doc)) : Doc :=
  .object (members.map fun member => (JsonText.ofString member.1, member.2))

/-- The members that are written; a skipped field has none. -/
def present (fields : List (String × Option Doc)) : List (String × Doc) :=
  fields.filterMap fun field => field.2.map fun doc => (field.1, doc)

def structDoc (fields : List (String × Option Doc)) : Doc :=
  objectDoc (present fields)

theorem namedMembers_ofString {δ : Type} (members : List (String × δ)) :
    namedMembers
        (members.map fun member => (JsonText.ofString member.1, member.2)) =
      some members := by
  induction members with
  | nil => rfl
  | cons member rest ih =>
      obtain ⟨name, value⟩ := member
      unfold namedMembers at ih ⊢
      rw [List.map_cons, List.mapM_cons, ih]
      simp

theorem member_eq_ok_none {δ : Type} {members : List (String × δ)}
    {name : String} (habsent : ∀ member ∈ members, member.1 ≠ name) :
    member members name = .ok none := by
  have hfilter : members.filter (fun member => member.1 == name) = [] := by
    rw [List.filter_eq_nil_iff]
    intro member hmember
    simpa using habsent member hmember
  rw [member, hfilter]

/-- A written struct has at each name the field of that name. -/
theorem member_present {fields : List (String × Option Doc)}
    (hnames : (fields.map Prod.fst).Nodup) {name : String}
    {field : Option Doc} (hfield : fields.lookup name = some field) :
    member (present fields) name = .ok field := by
  induction fields with
  | nil => simp at hfield
  | cons first rest ih =>
      obtain ⟨key, value⟩ := first
      rw [List.map_cons, List.nodup_cons] at hnames
      by_cases hkey : key = name
      · subst hkey
        have hvalue : value = field := by
          simpa [List.lookup_cons] using hfield
        subst hvalue
        have habsent : ∀ member ∈ present rest, member.1 ≠ key := by
          intro member hmember heq
          obtain ⟨source, hsource, hpresent⟩ :=
            List.mem_filterMap.mp hmember
          obtain ⟨doc, -, hpair⟩ := Option.map_eq_some_iff.mp hpresent
          have hname : source.1 = key := by
            rw [← heq, ← hpair]
          exact hnames.1 (List.mem_map.mpr ⟨source, hsource, hname⟩)
        have hnone : (present rest).filter
            (fun member => member.1 == key) = [] := by
          rw [List.filter_eq_nil_iff]
          intro member hmember
          simpa using habsent member hmember
        cases value with
        | none =>
            exact member_eq_ok_none habsent
        | some doc =>
            have hpresent : present ((key, some doc) :: rest) =
                (key, doc) :: present rest := rfl
            rw [member, hpresent, List.filter_cons_of_pos (by simp), hnone]
      · have hlookup : rest.lookup name = some field := by
          have hne : (name == key) = false := by
            simpa using fun heq => hkey heq.symm
          simpa [List.lookup_cons, hne] using hfield
        have hrest := ih hnames.2 hlookup
        cases value with
        | none => exact hrest
        | some doc =>
            have hpresent : present ((key, some doc) :: rest) =
                (key, doc) :: present rest := rfl
            rw [member, hpresent,
              List.filter_cons_of_neg (by simpa using hkey)]
            exact hrest

section Mapped

variable {δ ε α : Type} (image : δ → ε)

def mapMembers (members : List (String × δ)) : List (String × ε) :=
  members.map fun member => (member.1, image member.2)

theorem member_mapMembers (members : List (String × δ)) (name : String) :
    member (mapMembers image members) name =
      (member members name).map (Option.map image) := by
  have hfilter : (mapMembers image members).filter
      (fun member => member.1 == name) =
        mapMembers image (members.filter fun member => member.1 == name) := by
    simp only [mapMembers, List.filter_map]
    rfl
  rw [member, hfilter, member]
  cases members.filter fun member => member.1 == name with
  | nil => rfl
  | cons first rest => cases rest <;> rfl

theorem required_mapMembers (members : List (String × δ)) (index : ℕ)
    (name : String) (read : ε → Except SerdeError α) :
    required (.object (mapMembers image members)) index name read =
      required (.object members) index name fun child =>
        read (image child) := by
  simp only [required, field, member_mapMembers]
  cases member members name with
  | error error => rfl
  | ok value => cases value <;> rfl

theorem defaulted_mapMembers (members : List (String × δ)) (index : ℕ)
    (name : String) (default : α) (read : ε → Except SerdeError α) :
    defaulted (.object (mapMembers image members)) index name default read =
      defaulted (.object members) index name default fun child =>
        read (image child) := by
  simp only [defaulted, field, member_mapMembers]
  cases member members name with
  | error error => rfl
  | ok value => cases value <;> rfl

end Mapped

section Written

variable {α : Type} (floats : FloatText)
  {fields : List (String × Option Doc)}

@[simp] theorem docSource_shape (doc : Doc) :
    (docSource floats).shape doc = docShape floats doc := rfl

@[simp] theorem docShape_structDoc :
    docShape floats (structDoc fields) = .object (present fields) := by
  simp only [structDoc, objectDoc, docShape, namedMembers_ofString]

theorem required_present (hnames : (fields.map Prod.fst).Nodup)
    (index : ℕ) (name : String) {doc : Doc}
    (hfield : fields.lookup name = some (some doc))
    (read : Doc → Except SerdeError α) :
    required (.object (present fields)) index name read = read doc := by
  unfold required
  rw [field, member_present hnames hfield]
  rfl

theorem defaulted_present (hnames : (fields.map Prod.fst).Nodup)
    (index : ℕ) (name : String) {value : Option Doc}
    (hfield : fields.lookup name = some value) (default : α)
    (read : Doc → Except SerdeError α) :
    defaulted (.object (present fields)) index name default read =
      match value with
      | some doc => read doc
      | none => .ok default := by
  unfold defaulted
  rw [field, member_present hnames hfield]
  cases value <;> rfl

@[simp] theorem readString_stringDoc (value : String) :
    readString (docSource floats) (stringDoc value) = .ok value := by
  simp [readString, docSource, docShape, stringDoc]

theorem readNatural_naturalText (value : ℕ) :
    readNatural (docSource floats) (.number (naturalText value)) =
      .ok value := by
  simp [readNatural, docSource]

theorem readU64_naturalText (value : UInt64) :
    readU64 (docSource floats) (.number (naturalText value.toNat)) =
      .ok value := by
  have hvalue : value.toNat < 2 ^ 64 := value.toNat_lt_size
  simp only [readU64, docSource, natural_naturalText, hvalue, if_true,
    UInt64.ofNat_toNat]

@[simp] theorem readVec_stringDoc (values : List String) :
    readVec (docSource floats) (readString (docSource floats))
        (.array (values.map stringDoc)) = .ok values := by
  unfold readVec
  simp only [docSource, docShape]
  induction values with
  | nil => rfl
  | cons value rest ih =>
      rw [List.map_cons, List.mapM_cons, ih]
      have hvalue := readString_stringDoc floats value
      simp only [docSource] at hvalue
      rw [hvalue]
      rfl

theorem docShape_ne_null {doc : Doc} (hdoc : doc ≠ .null) :
    docShape floats doc ≠ .null := by
  intro hshape
  fun_cases docShape floats doc <;> simp_all [docShape]

theorem readOption_of_ne_null {read : Doc → Except SerdeError α} {doc : Doc}
    (hdoc : doc ≠ .null) :
    readOption (docSource floats) read doc = (read doc).map some := by
  have hshape := docShape_ne_null floats hdoc
  unfold readOption
  split
  case h_1 hnull => exact absurd hnull hshape
  case h_2 => rfl

theorem readStringMap_objectDoc (members : List (String × String)) :
    readStringMap (docSource floats)
        (objectDoc (members.map fun member =>
          (member.1, stringDoc member.2))) = .ok members := by
  have hshape : docShape floats (objectDoc (members.map fun member =>
      (member.1, stringDoc member.2))) =
      .object (members.map fun member =>
        (member.1, stringDoc member.2)) := by
    simp only [objectDoc, docShape, namedMembers_ofString]
  unfold readStringMap
  simp only [docSource, hshape]
  induction members with
  | nil => rfl
  | cons member rest ih =>
      rw [List.map_cons, List.mapM_cons]
      have hvalue := readString_stringDoc floats member.2
      simp only [docSource] at hvalue
      rw [hvalue, ih]
      · rfl
      · simp only [objectDoc, docShape, namedMembers_ofString]

end Written

end Serde
