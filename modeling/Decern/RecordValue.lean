import Decern.LedgerRecord
import Mathlib.Tactic

/-!
# A record line as a value

Some readers parse a whole line as one JSON value and take members out of it,
where the verifier reads the envelope alone.  What both read they read alike;
but the value of a line nests two levels deeper than the entry's context, so
it can be out of the parser's reach when the entry itself is not.
-/

namespace Serde

open JsonText (Doc StringUnit)

variable (floats : FloatText)

/-- The member of a name in a parsed object is the last one written. -/
theorem get_ofMembers {members : List (List StringUnit × Doc)}
    {named : List (String × Doc)} {earlier final : Map}
    (hnamed : namedMembers members = some named)
    (hfinal : Value.ofMembers floats members earlier = some final)
    (name : String) :
    Map.get final name =
      match (named.filter fun member => member.1 == name).getLast? with
      | none => Map.get earlier name
      | some member => Value.ofDoc floats member.2 := by
  induction members generalizing named earlier with
  | nil =>
      cases hnamed
      cases hfinal
      rfl
  | cons member rest ih =>
      obtain ⟨units, doc⟩ := member
      unfold namedMembers at hnamed
      rw [List.mapM_cons] at hnamed
      simp only [Value.ofMembers, Option.bind_eq_bind,
        Option.bind_eq_some_iff] at hfinal
      obtain ⟨key, hkey, value, hvalue, hrest⟩ := hfinal
      simp only [hkey, Option.map_some, Option.bind_eq_bind,
        Option.bind_some, Option.bind_eq_some_iff] at hnamed
      obtain ⟨others, hothers, hcons⟩ := hnamed
      cases hcons
      rw [ih hothers hrest]
      by_cases hname : key = name
      · subst hname
        rw [List.filter_cons_of_pos (by simp), List.getLast?_cons]
        cases (others.filter fun member =>
            member.1 == key).getLast? with
        | none => simp [hvalue]
        | some last => simp
      · rw [List.filter_cons_of_neg (by simpa using hname)]
        simp [Map.get_insert, Ne.symm hname]

theorem get_ofMembers_of_member {members : List (List StringUnit × Doc)}
    {named : List (String × Doc)} {final : Map}
    (hnamed : namedMembers members = some named)
    (hfinal : Value.ofMembers floats members [] = some final)
    {name : String} {found : Option Doc}
    (hmember : member named name = .ok found) :
    Map.get final name = found.bind (Value.ofDoc floats) := by
  rw [get_ofMembers floats hnamed hfinal name]
  unfold member at hmember
  split at hmember
  case h_1 hnone =>
    cases hmember
    simp [hnone]
  case h_2 key value hsome =>
    cases hmember
    simp [hsome]
  case h_3 => cases hmember

theorem ofDoc_of_readString {doc : Doc} {value : String}
    (hread : readString (docSource floats) doc = .ok value) :
    Value.ofDoc floats doc = some (.string value) := by
  unfold readString at hread
  split at hread
  case h_1 text hshape =>
    cases hread
    rw [docSource_shape] at hshape
    cases doc with
    | string units =>
        simp only [docShape] at hshape
        split at hshape
        case h_1 text htext =>
          cases hshape
          simp [Value.ofDoc, htext]
        case h_2 => cases hshape
    | number text =>
        simp only [docShape] at hshape
        split at hshape <;> cases hshape
    | object members =>
        simp only [docShape] at hshape
        split at hshape <;> cases hshape
    | _ => cases hshape
  case h_2 => cases hread
  case h_3 => cases hread

/-- An optional string member, as a value's member. -/
theorem asStr_of_readOption {doc : Doc} {value : Option String}
    (hread : readOption (docSource floats)
      (readString (docSource floats)) doc = .ok value) :
    (Value.ofDoc floats doc).bind Value.asStr = value := by
  unfold readOption at hread
  split at hread
  case h_1 hnull =>
    cases hread
    rw [docSource_shape] at hnull
    have hdoc : doc = .null := by
      by_contra hne
      exact docShape_ne_null floats hne hnull
    subst hdoc
    rfl
  case h_2 =>
    cases hstring : readString (docSource floats) doc with
    | error error =>
        rw [hstring] at hread
        cases hread
    | ok text =>
        rw [hstring] at hread
        cases hread
        rw [ofDoc_of_readString floats hstring]
        rfl

section Shapes

variable {δ α : Type}

theorem required_object_eq_ok {members : List (String × δ)} {index : ℕ}
    {name : String} {read : δ → Except SerdeError α} {result : α}
    (hok : required (.object members) index name read = .ok result) :
    ∃ child, member members name = .ok (some child) ∧
      read child = .ok result := by
  unfold required at hok
  rw [field] at hok
  cases hmember : member members name with
  | error error =>
      rw [hmember] at hok
      cases hok
  | ok found =>
      rw [hmember] at hok
      cases found with
      | none => cases hok
      | some child => exact ⟨child, rfl, hok⟩

theorem defaulted_object_eq_ok {members : List (String × δ)} {index : ℕ}
    {name : String} {default result : α} {read : δ → Except SerdeError α}
    (hok : defaulted (.object members) index name default read =
      .ok result) :
    (member members name = .ok none ∧ result = default) ∨
      ∃ child, member members name = .ok (some child) ∧
        read child = .ok result := by
  unfold defaulted at hok
  rw [field] at hok
  cases hmember : member members name with
  | error error =>
      rw [hmember] at hok
      cases hok
  | ok found =>
      rw [hmember] at hok
      cases found with
      | none =>
          cases hok
          exact Or.inl ⟨rfl, rfl⟩
      | some child => exact Or.inr ⟨child, rfl, hok⟩

end Shapes

/-! ## Written structs as values -/

/-- A written struct is a value when each of its fields is. -/
theorem ofDoc_structDoc_isSome {fields : List (String × Option Doc)}
    (hfields : ∀ field ∈ fields, ∀ doc, field.2 = some doc →
      (Value.ofDoc floats doc).isSome) :
    (Value.ofDoc floats (structDoc fields)).isSome := by
  have hmembers : ∀ (members : List (String × Doc)) (earlier : Map),
      (∀ member ∈ members, (Value.ofDoc floats member.2).isSome) →
      (Value.ofMembers floats (members.map fun member =>
        (JsonText.ofString member.1, member.2)) earlier).isSome := by
    intro members
    induction members with
    | nil => intro earlier _; rfl
    | cons member rest ih =>
        intro earlier hall
        obtain ⟨value, hvalue⟩ := Option.isSome_iff_exists.mp
          (hall member (by simp))
        simpa [Value.ofMembers, hvalue] using ih _ fun other hother =>
          hall other (List.mem_cons_of_mem _ hother)
  have hpresent : ∀ member ∈ present fields,
      (Value.ofDoc floats member.2).isSome := by
    intro member hmember
    obtain ⟨field, hfield, hpair⟩ := List.mem_filterMap.mp hmember
    obtain ⟨doc, hdoc, rfl⟩ := Option.map_eq_some_iff.mp hpair
    exact hfields field hfield doc hdoc
  simpa [structDoc, objectDoc, Value.ofDoc] using
    hmembers (present fields) [] hpresent

theorem ofDoc_stringDocs_isSome (values : List String) :
    (Value.ofDoc floats (.array (values.map stringDoc))).isSome := by
  have hitems : (Value.ofDocs floats (values.map stringDoc)).isSome := by
    induction values with
    | nil => rfl
    | cons value rest ih =>
        obtain ⟨others, hothers⟩ := Option.isSome_iff_exists.mp ih
        simp [Value.ofDocs, Value.ofDoc, stringDoc, hothers]
  simpa [Value.ofDoc] using hitems

/-- How deep a written struct nests: one level around its deepest field. -/
theorem nesting_structDoc_le_iff (fields : List (String × Option Doc))
    (bound : ℕ) :
    (structDoc fields).nesting ≤ 1 + bound ↔
      ∀ field ∈ fields, ∀ doc, field.2 = some doc → doc.nesting ≤ bound := by
  have hmembers : ∀ members : List (String × Doc),
      Doc.nestingMembers (members.map fun member =>
        (JsonText.ofString member.1, member.2)) ≤ bound ↔
      ∀ member ∈ members, member.2.nesting ≤ bound := by
    intro members
    induction members with
    | nil => simp [Doc.nestingMembers]
    | cons member rest ih =>
        rw [List.map_cons, Doc.nestingMembers, max_le_iff, ih]
        simp
  rw [structDoc, objectDoc, Doc.nesting, Nat.add_le_add_iff_left, hmembers]
  constructor
  · intro hall field hfield doc hdoc
    exact hall (field.1, doc) (List.mem_filterMap.mpr
      ⟨field, hfield, by rw [hdoc]; rfl⟩)
  · intro hall member hmember
    obtain ⟨field, hfield, hpair⟩ := List.mem_filterMap.mp hmember
    obtain ⟨doc, hdoc, rfl⟩ := Option.map_eq_some_iff.mp hpair
    exact hall field hfield doc hdoc

end Serde

namespace Decern

open JsonText (Doc Spanned StringUnit)
open Serde (Value docSource objectDoc present stringDoc structDoc)

variable (P : Platform)

/-- `record.get(name).and_then(Value::as_str)`. -/
def textMember (record : Value) (name : String) : Option String :=
  (record.get name).bind Value.asStr

/-- A line with an envelope is not blank. -/
theorem not_blank_of_readRecord {line : String} {record : RecordIn}
    (hrecord : readRecord P line = .ok record) :
    RustText.isBlank line = false := by
  cases hstart : JsonText.skipSpace line.toList with
  | nil =>
      simp [readRecord, JsonText.readOutline, JsonText.readOutlineStart,
        hstart] at hrecord
  | cons c rest =>
      have hmem : c ∈ line.toList := by
        have hsuffix : JsonText.skipSpace line.toList <:+ line.toList :=
          List.dropWhile_suffix _
        exact hsuffix.subset (by rw [hstart]; simp)
      by_cases hopen : c = '[' ∨ c = '{'
      · apply RustText.isBlank_eq_false hmem
        rcases hopen with rfl | rfl <;> decide
      · exfalso
        rw [not_or] at hopen
        unfold readRecord JsonText.readOutline JsonText.readOutlineStart
          at hrecord
        simp only [hstart, if_neg hopen.1, if_neg hopen.2] at hrecord
        split at hrecord
        case h_1 => cases hrecord
        case h_2 outline houtline =>
          obtain ⟨⟨found, after⟩, hfound, hrest⟩ :=
            Option.bind_eq_some_iff.mp houtline
          obtain ⟨⟨doc, later⟩, -, hleaf⟩ :=
            Option.map_eq_some_iff.mp hfound
          cases hleaf
          simp only at hrest
          split at hrest
          case isTrue =>
            cases hrest
            simp only [Serde.outlineShape] at hrecord
            split at hrecord <;> cases hrecord
          case isFalse => cases hrest

/-- The members a line's envelope is read from. -/
structure EnvelopeMembers (named : List (String × Spanned))
    (record : RecordIn) : Prop where
  hash : ∃ child, Serde.member named "hash" = .ok (some child) ∧
    Serde.readString (docSource P.floats) child.doc = .ok record.hash
  sigB64 : ∃ child, Serde.member named "sig_b64" = .ok (some child) ∧
    Serde.readString (docSource P.floats) child.doc = .ok record.sigB64
  kid : (Serde.member named "kid" = .ok none ∧ record.kid = none) ∨
    ∃ child, Serde.member named "kid" = .ok (some child) ∧
      Serde.readOption (docSource P.floats)
        (Serde.readString (docSource P.floats)) child.doc = .ok record.kid

theorem envelopeMembers_of_readRecord {line : String} {record : RecordIn}
    {members : List (List StringUnit × Spanned)}
    {named : List (String × Spanned)}
    (houtline : JsonText.readOutline line.toList = some (.object members))
    (hnamed : Serde.namedMembers members = some named)
    (hrecord : readRecord P line = .ok record) :
    EnvelopeMembers P named record := by
  unfold readRecord at hrecord
  simp only [houtline, Serde.outlineShape, hnamed, Serde.expectStruct,
    bind, Except.bind, pure, Except.pure] at hrecord
  split at hrecord
  case h_1 => cases hrecord
  case h_2 entry hentry =>
    split at hrecord
    case h_1 => cases hrecord
    case h_2 prev hprev =>
      split at hrecord
      case h_1 => cases hrecord
      case h_2 hash hhash =>
        split at hrecord
        case h_1 => cases hrecord
        case h_2 sigB64 hsig =>
          split at hrecord
          case h_1 => cases hrecord
          case h_2 kid hkid =>
            cases hrecord
            exact
              { hash := Serde.required_object_eq_ok hhash
                sigB64 := Serde.required_object_eq_ok hsig
                kid := Serde.defaulted_object_eq_ok hkid }

theorem namedMembers_doc {members : List (List StringUnit × Spanned)}
    {named : List (String × Spanned)}
    (hnamed : Serde.namedMembers members = some named) :
    Serde.namedMembers
        (members.map fun member => (member.1, member.2.doc)) =
      some (Serde.mapMembers Spanned.doc named) := by
  unfold Serde.namedMembers at hnamed ⊢
  induction members generalizing named with
  | nil =>
      cases hnamed
      rfl
  | cons member rest ih =>
      rw [List.mapM_cons] at hnamed
      simp only [Option.bind_eq_bind, Option.bind_eq_some_iff,
        Option.map_eq_some_iff] at hnamed
      obtain ⟨first, ⟨name, hname, rfl⟩, others, hothers, hcons⟩ := hnamed
      cases hcons
      rw [List.map_cons, List.mapM_cons, ih hothers, hname]
      rfl

/-- What a line's envelope and its value have in common: the members of an
object are read alike, and an array has none. -/
theorem textMember_of_readRecord {line : String} {record : RecordIn}
    {value : Value} (hrecord : readRecord P line = .ok record)
    (hvalue : parseValue P line = some value) :
    (∃ items, value = .array items) ∨
      (textMember value "hash" = some record.hash ∧
        textMember value "sig_b64" = some record.sigB64 ∧
        textMember value "kid" = record.kid) := by
  cases houtline : JsonText.readOutline line.toList with
  | none => simp [readRecord, houtline] at hrecord
  | some outline =>
      have hdoc : Value.ofDoc P.floats outline.doc = some value := by
        simp only [parseValue, JsonText.parse, houtline, Option.map_some,
          Option.bind_some] at hvalue
        unfold Serde.readValue at hvalue
        split at hvalue
        case isTrue => exact hvalue
        case isFalse => cases hvalue
      cases outline with
      | leaf doc =>
          simp only [readRecord, houtline, Serde.outlineShape] at hrecord
          split at hrecord <;> cases hrecord
      | array items =>
          left
          simp only [JsonText.Outline.doc, Value.ofDoc,
            Option.map_eq_some_iff] at hdoc
          obtain ⟨values, -, rfl⟩ := hdoc
          exact ⟨values, rfl⟩
      | object members =>
          right
          cases hnamed : Serde.namedMembers members with
          | none =>
              simp only [readRecord, houtline, Serde.outlineShape, hnamed]
                at hrecord
              cases hrecord
          | some named =>
              have henvelope :=
                envelopeMembers_of_readRecord P houtline hnamed hrecord
              simp only [JsonText.Outline.doc, Value.ofDoc,
                Option.map_eq_some_iff] at hdoc
              obtain ⟨final, hfinal, rfl⟩ := hdoc
              have hget : ∀ {name found},
                  Serde.member named name = .ok found →
                  Value.get (.object final) name =
                    (found.map Spanned.doc).bind
                      (Value.ofDoc P.floats) := by
                intro name found hmember
                apply Serde.get_ofMembers_of_member P.floats
                  (namedMembers_doc hnamed) hfinal
                rw [Serde.member_mapMembers, hmember]
                rfl
              have htext : ∀ {name child text},
                  Serde.member named name = .ok (some child) →
                  Serde.readString (docSource P.floats) child.doc =
                    .ok text →
                  textMember (.object final) name = some text := by
                intro name child text hmember hread
                rw [textMember, hget hmember]
                simp [Serde.ofDoc_of_readString P.floats hread, Value.asStr]
              obtain ⟨hashChild, hhash, hhashText⟩ := henvelope.hash
              obtain ⟨sigChild, hsig, hsigText⟩ := henvelope.sigB64
              refine ⟨htext hhash hhashText, htext hsig hsigText, ?_⟩
              rcases henvelope.kid with ⟨hnone, hkid⟩ | ⟨child, hkid, hread⟩
              · rw [textMember, hget hnone, hkid]
                rfl
              · rw [textMember, hget hkid]
                exact Serde.asStr_of_readOption P.floats hread

/-! ## Written lines as values -/

/-- A tree that is a value and nests no deeper than a bound. -/
structure Plain (depth : ℕ) (doc : Doc) : Prop where
  nesting : doc.nesting ≤ depth
  value : (Value.ofDoc P.floats doc).isSome

/-- The same of a field, if it is written. -/
def PlainField (depth : ℕ) (field : Option Doc) : Prop :=
  ∀ doc, field = some doc → Plain P depth doc

section Plain

variable {P} {depth : ℕ}

theorem plainField_some {doc : Doc} (hdoc : Plain P depth doc) :
    PlainField P depth (some doc) := by
  intro other hother
  cases hother
  exact hdoc

theorem plainField_none : PlainField P depth none := by
  intro doc hdoc
  cases hdoc

theorem plainField_map {α : Type} {toDoc : α → Doc}
    (htoDoc : ∀ value, Plain P depth (toDoc value)) (value : Option α) :
    PlainField P depth (value.map toDoc) := by
  cases value with
  | none => exact plainField_none
  | some value => exact plainField_some (htoDoc value)

theorem plain_stringDoc (value : String) : Plain P depth (stringDoc value) :=
  ⟨by simp [stringDoc, Doc.nesting], by simp [stringDoc, Value.ofDoc]⟩

theorem plain_bool (value : Bool) : Plain P depth (.bool value) :=
  ⟨by simp [Doc.nesting], rfl⟩

theorem plain_number {value : ℕ} (hvalue : value < 2 ^ 64) :
    Plain P depth (.number (Serde.naturalText value)) := by
  constructor
  · simp [Doc.nesting]
  · simp only [Value.ofDoc, Serde.Number.ofText, Serde.natural_naturalText,
      hvalue, if_true, Option.map_some, Option.isSome_some]

theorem plain_stringDocs (values : List String) :
    Plain P (1 + depth) (.array (values.map stringDoc)) := by
  constructor
  · have hitems : Doc.nestingItems (values.map stringDoc) = 0 := by
      induction values with
      | nil => rfl
      | cons value rest ih =>
          simp [Doc.nestingItems, stringDoc, Doc.nesting, ih]
    rw [Doc.nesting, hitems]
    omega
  · exact Serde.ofDoc_stringDocs_isSome P.floats values

theorem plain_structDoc {fields : List (String × Option Doc)}
    (hfields : ∀ field ∈ fields, PlainField P depth field.2) :
    Plain P (1 + depth) (structDoc fields) := by
  constructor
  · exact (Serde.nesting_structDoc_le_iff fields depth).mpr
      fun field hfield doc hdoc => (hfields field hfield doc hdoc).nesting
  · exact Serde.ofDoc_structDoc_isSome P.floats
      fun field hfield doc hdoc => (hfields field hfield doc hdoc).value

theorem plain_party (party : Party) : Plain P (1 + depth) party.toDoc := by
  apply plain_structDoc
  simp [plainField_some, plain_stringDoc]

theorem plain_missionRef (mission : MissionRef) :
    Plain P (1 + depth) mission.toDoc := by
  apply plain_structDoc
  simp [plainField_some, plain_stringDoc]

theorem plain_decisionSubject (subject : DecisionSubject) :
    Plain P (1 + depth) subject.toDoc := by
  apply plain_structDoc
  simp [plainField_some, plainField_map, plain_stringDoc]

theorem plain_assertedBy (caller : AssertedBy) :
    Plain P (1 + depth) caller.toDoc := by
  apply plain_structDoc
  simp [plainField_some, plainField_map, plain_stringDoc]

theorem plain_challengeRecord (challenge : ChallengeRecord) :
    Plain P (1 + (1 + depth)) challenge.toDoc := by
  apply plain_structDoc
  simp [plainField_some, plainField_map, plain_stringDoc, plain_stringDocs]

theorem plainField_edge (edge : EdgeType) :
    PlainField P depth edge.toDoc := by
  cases edge with
  | attenuate => exact plainField_none
  | mint => exact plainField_some (plain_stringDoc _)

theorem plainField_sponsorSource (source : SponsorSource) :
    PlainField P depth source.toDoc := by
  cases source with
  | derived => exact plainField_none
  | explicit => exact plainField_some (plain_stringDoc _)

theorem plainField_skipFalse (value : Bool) :
    PlainField P depth (skipFalse value) := by
  unfold skipFalse
  split
  case isTrue => exact plainField_some (plain_bool true)
  case isFalse => exact plainField_none

theorem plainField_digests (digests : List (String × String)) :
    PlainField P (1 + depth) (digestsDoc digests) := by
  unfold digestsDoc
  split
  case isTrue => exact plainField_none
  case isFalse =>
    have hdoc : objectDoc (digests.map fun digest =>
        (digest.1, stringDoc digest.2)) =
        structDoc (digests.map fun digest =>
          (digest.1, some (stringDoc digest.2))) := by
      rw [structDoc, present, List.filterMap_map]
      congr 1
      exact (List.filterMap_eq_map ▸ rfl)
    apply plainField_some
    rw [hdoc]
    apply plain_structDoc
    intro field hfield
    obtain ⟨digest, -, rfl⟩ := List.mem_map.mp hfield
    exact plainField_some (plain_stringDoc _)

end Plain

theorem plain_entry {entry : Entry} {depth : ℕ}
    (hseq : entry.seq < 2 ^ 64)
    (hcontext : entry.context.nesting ≤ 1 + (1 + depth)) :
    Plain P (1 + (1 + (1 + depth))) (entry.toDoc P.floats) := by
  have hvalue : Plain P (1 + (1 + depth)) (entry.context.toDoc P.floats) :=
    ⟨by rwa [Value.nesting_toDoc], Value.ofDoc_toDoc_isSome P.floats _⟩
  apply plain_structDoc
  simp only [Entry.fields, List.forall_mem_cons, List.not_mem_nil,
    false_implies, implies_true, and_true]
  exact ⟨plainField_some (plain_number hseq),
    plainField_some (plain_number entry.tsMs.toNat_lt_size),
    plainField_some (plain_stringDoc _), plainField_some (plain_stringDoc _),
    plainField_some (plain_stringDoc _), plainField_some (plain_stringDoc _),
    plainField_some (plain_stringDoc _), plainField_some hvalue,
    plainField_some (plain_bool _), plainField_some (plain_stringDocs _),
    plainField_edge _, plainField_map plain_party _,
    plainField_sponsorSource _, plainField_map plain_missionRef _,
    plainField_map plain_decisionSubject _,
    plainField_map plain_assertedBy _, plainField_skipFalse _,
    plainField_map plain_challengeRecord _, plainField_digests _⟩

theorem plain_line {record : RecordOut} (depth : ℕ)
    (hseq : record.entry.seq < 2 ^ 64)
    (hcontext : record.entry.context.nesting ≤ 1 + (1 + depth)) :
    Plain P (1 + (1 + (1 + (1 + depth)))) (record.toDoc P) := by
  apply plain_structDoc
  simp only [RecordOut.fields, List.forall_mem_cons, List.not_mem_nil,
    false_implies, implies_true, and_true]
  exact ⟨plainField_some (plain_entry P hseq hcontext),
    plainField_some (plain_stringDoc _), plainField_some (plain_stringDoc _),
    plainField_some (plain_stringDoc _), plainField_map plain_stringDoc _⟩

/-- A line nests two levels around its entry's context. -/
theorem nesting_line_ge (record : RecordOut) :
    2 + record.entry.context.nesting ≤ (record.toDoc P).nesting := by
  obtain ⟨bound, hbound⟩ : ∃ bound, (record.toDoc P).nesting = 1 + bound :=
    ⟨_, rfl⟩
  have hentry := (Serde.nesting_structDoc_le_iff _ bound).mp hbound.le
    ("entry", some (record.entry.toDoc P.floats)) (by simp [RecordOut.fields])
    _ rfl
  obtain ⟨inner, hinner⟩ : ∃ inner,
      (record.entry.toDoc P.floats).nesting = 1 + inner := ⟨_, rfl⟩
  have hcontext := (Serde.nesting_structDoc_le_iff _ inner).mp hinner.le
    ("context", some (record.entry.context.toDoc P.floats))
    (by simp [Entry.fields]) _ rfl
  rw [Value.nesting_toDoc] at hcontext
  omega

theorem parseValue_line (record : RecordOut) :
    parseValue P (record.line P) =
      Serde.readValue P.floats 0 (record.toDoc P) := by
  have hparse : JsonText.parse (record.line P).toList =
      some (record.toDoc P) := by
    rw [line_toList]
    exact JsonText.parse_print_object _
  rw [parseValue, hparse, Option.bind_some]

theorem parseValue_line_object {record : RecordOut} {value : Value}
    (hvalue : parseValue P (record.line P) = some value) :
    ∃ members, value = .object members := by
  rw [parseValue_line, Serde.readValue] at hvalue
  split at hvalue
  case isTrue =>
    rw [RecordOut.toDoc, structDoc, objectDoc, Value.ofDoc,
      Option.map_eq_some_iff] at hvalue
    obtain ⟨members, -, rfl⟩ := hvalue
    exact ⟨members, rfl⟩
  case isFalse => cases hvalue

/-- An entry whose context is read with `depth` brackets open around it. -/
def Entry.ReadsUnder (depth : ℕ) (entry : Entry) : Prop :=
  depth + entry.context.nesting < Serde.recursionLimit

theorem Entry.ReadsUnder.mono {entry : Entry} {depth less : ℕ}
    (hentry : entry.ReadsUnder depth) (hless : less ≤ depth) :
    entry.ReadsUnder less := by
  unfold Entry.ReadsUnder at hentry ⊢
  omega

/-- An entry whose whole line is within the parser's limit. -/
def Entry.LineWithinLimit (entry : Entry) : Prop :=
  2 + entry.context.nesting < Serde.recursionLimit

instance (entry : Entry) : Decidable entry.LineWithinLimit :=
  inferInstanceAs (Decidable (2 + entry.context.nesting < _))

theorem Entry.LineWithinLimit.withinLimit {entry : Entry}
    (hentry : entry.LineWithinLimit) : entry.WithinLimit := by
  have hline : entry.ReadsUnder 2 := hentry
  exact hline.mono (by omega)

/-- A written line reads as a value exactly when it is within the limit. -/
theorem parseValue_line_isSome_iff (record : RecordOut)
    (hseq : record.entry.seq < 2 ^ 64) :
    (parseValue P (record.line P)).isSome ↔
      record.entry.LineWithinLimit := by
  rw [parseValue_line, Serde.readValue, Entry.LineWithinLimit]
  have hge := nesting_line_ge P record
  unfold Serde.recursionLimit at *
  constructor
  · intro hsome
    split at hsome
    case isTrue hdepth => omega
    case isFalse => cases hsome
  · intro hdepth
    have hplain := plain_line P 123 hseq (by omega)
    have hnesting := hplain.nesting
    rw [if_pos (by omega)]
    exact hplain.value

end Decern
