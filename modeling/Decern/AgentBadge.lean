import Decern.LedgerVerify
import Decern.MissionBinding
import Mathlib.Tactic

/-!
# Agent badges

A badge is a signed, portable delegation grant: its claims are what becomes a
principal of the graph.  It is carried in a compact JWS, and nothing of its
payload is read before the signature under the pinned key has verified.
-/

namespace Decern.Identity

open ByteText (Bytes)
open JsonText (Doc)
open Serde (SerdeError Source defaulted docSource expectStruct present
  readOption readString readU64 readVec required stringDoc structDoc)

/-! ## The data -/

def jwsAlg : String := "EdDSA"

def jwsTyp : String := "vc+jwt"

def vcContext : String := "https://www.w3.org/ns/credentials/v2"

def badgeType : String := "AgentBadge"

structure JwsHeader where
  alg : String
  typ : String
  kid : String
  deriving DecidableEq, Repr

structure CredentialSchema where
  id : String
  schemaType : String
  deriving DecidableEq, Repr

/-- The claims that become a principal's attributes. -/
structure BadgeSubject where
  id : String
  kind : String
  tenant : String
  scopes : List String
  delegator : Option String
  expiry : UInt64
  aud : Option String
  deriving DecidableEq, Repr

structure Badge where
  context : List String
  id : Option String
  types : List String
  issuer : String
  validFrom : UInt64
  validUntil : UInt64
  subject : BadgeSubject
  credentialSchema : Option (List CredentialSchema)
  mission : Option MissionRef
  deriving DecidableEq, Repr

inductive IdentityError where
  | malformed (message : String)
  | algRejected (alg : String)
  | pubkeyMismatch
  | badSignature
  | notYetValid (now validFrom : UInt64)
  | expired (now validUntil : UInt64)
  | subjectInvalid (message : String)
  | alreadyExists (id : String)
  | admission (violations : String)
  | model (message : String)
  | registry (error : StoreError)
  deriving DecidableEq

/-! ## Serialization -/

def numberDoc (value : UInt64) : Doc :=
  .number (Serde.naturalText value.toNat)

def stringsDoc (values : List String) : Doc :=
  .array (values.map stringDoc)

def JwsHeader.toDoc (header : JwsHeader) : Doc :=
  structDoc [("alg", stringDoc header.alg), ("typ", stringDoc header.typ),
    ("kid", stringDoc header.kid)]

def CredentialSchema.toDoc (schema : CredentialSchema) : Doc :=
  structDoc [("id", stringDoc schema.id),
    ("type", stringDoc schema.schemaType)]

/-- An `Option` that is not skipped. -/
def nullableDoc (value : Option String) : Doc :=
  (value.map stringDoc).getD .null

def BadgeSubject.toDoc (subject : BadgeSubject) : Doc :=
  structDoc [("id", stringDoc subject.id), ("kind", stringDoc subject.kind),
    ("tenant", stringDoc subject.tenant),
    ("scopes", stringsDoc subject.scopes),
    ("delegator", nullableDoc subject.delegator),
    ("expiry", numberDoc subject.expiry),
    ("aud", subject.aud.map stringDoc)]

def schemasDoc (schemas : List CredentialSchema) : Doc :=
  .array (schemas.map CredentialSchema.toDoc)

def Badge.fields (badge : Badge) : List (String × Option Doc) :=
  [("@context", stringsDoc badge.context), ("id", badge.id.map stringDoc),
    ("type", stringsDoc badge.types), ("issuer", stringDoc badge.issuer),
    ("validFrom", numberDoc badge.validFrom),
    ("validUntil", numberDoc badge.validUntil),
    ("credentialSubject", badge.subject.toDoc),
    ("credentialSchema", badge.credentialSchema.map schemasDoc),
    ("mission", badge.mission.map MissionRef.toDoc)]

def Badge.toDoc (badge : Badge) : Doc := structDoc badge.fields

section Readers

variable {δ : Type} (source : Source δ)

def readJwsHeader (tree : δ) : Except SerdeError JwsHeader := do
  let shape := source.shape tree
  expectStruct 3 shape
  let alg ← required shape 0 "alg" (readString source)
  let typ ← required shape 1 "typ" (readString source)
  let kid ← required shape 2 "kid" (readString source)
  return { alg, typ, kid }

def readCredentialSchema (tree : δ) : Except SerdeError CredentialSchema := do
  let shape := source.shape tree
  expectStruct 2 shape
  let id ← required shape 0 "id" (readString source)
  let schemaType ← required shape 1 "type" (readString source)
  return { id, schemaType }

def readBadgeSubject (tree : δ) : Except SerdeError BadgeSubject := do
  let shape := source.shape tree
  expectStruct 7 shape
  let id ← required shape 0 "id" (readString source)
  let kind ← required shape 1 "kind" (readString source)
  let tenant ← required shape 2 "tenant" (readString source)
  let scopes ← required shape 3 "scopes" (readVec source (readString source))
  let delegator ← defaulted shape 4 "delegator" none
    (readOption source (readString source))
  let expiry ← required shape 5 "expiry" (readU64 source)
  let aud ← defaulted shape 6 "aud" none
    (readOption source (readString source))
  return { id, kind, tenant, scopes, delegator, expiry, aud }

def readBadge (tree : δ) : Except SerdeError Badge := do
  let shape := source.shape tree
  expectStruct 9 shape
  let context ← required shape 0 "@context"
    (readVec source (readString source))
  let id ← defaulted shape 1 "id" none
    (readOption source (readString source))
  let types ← required shape 2 "type" (readVec source (readString source))
  let issuer ← required shape 3 "issuer" (readString source)
  let validFrom ← required shape 4 "validFrom" (readU64 source)
  let validUntil ← required shape 5 "validUntil" (readU64 source)
  let subject ← required shape 6 "credentialSubject" (readBadgeSubject source)
  let credentialSchema ← defaulted shape 7 "credentialSchema" none
    (readOption source (readVec source (readCredentialSchema source)))
  let mission ← defaulted shape 8 "mission" none
    (readOption source (readMissionRef source))
  return { context, id, types, issuer, validFrom, validUntil, subject,
           credentialSchema, mission }

end Readers

/-! ## The compact serialization -/

/-- Base64 in the URL-safe alphabet, without padding. -/
structure Jose extends Platform where
  encodeUrl : Bytes → String
  decodeUrl : String → Except String Bytes
  decodeUrl_encodeUrl : ∀ bytes, decodeUrl (encodeUrl bytes) = .ok bytes
  encodeUrl_alphabet : ∀ bytes, ∀ c ∈ (encodeUrl bytes).toList,
    c ≠ '.' ∧ RustText.isWhitespace c = false

variable (J : Jose)

def jsonText (doc : Doc) : Bytes :=
  ByteText.encode (String.ofList (JsonText.print doc))

/-- `serde_json::from_slice`. -/
def fromSlice {α : Type} (read : Doc → Except SerdeError α) (bytes : Bytes) :
    Except SerdeError α :=
  match (ByteText.decode bytes).bind fun text =>
      JsonText.parse text.toList with
  | some doc => read doc
  | none => .error .unreadable

def signCompact (typ kid : String) (payload : Bytes) (key : SigningKey) :
    String :=
  let header : JwsHeader := { alg := jwsAlg, typ, kid }
  let signingInput := J.encodeUrl (jsonText header.toDoc) ++ "." ++
    J.encodeUrl payload
  signingInput ++ "." ++
    J.encodeUrl (J.sign key (ByteText.encode signingInput)).toList

/-- A badge signed into a compact JWS. -/
def issue (badge : Badge) (key : SigningKey) : String :=
  signCompact J jwsTyp (keyFingerprint (J.verifyingKey key))
    (jsonText badge.toDoc) key

/-- The text between the dots. -/
def segments (jws : String) : List String :=
  ((RustText.trim jws).toList.splitOn '.').map String.ofList

def decodePart (what part : String) : Except IdentityError Bytes :=
  (J.decodeUrl part).mapError fun error =>
    .malformed (what ++ " b64: " ++ error)

def readPart {α : Type} (what : String) (read : Doc → Except SerdeError α)
    (bytes : Bytes) : Except IdentityError α :=
  (fromSlice read bytes).mapError fun error =>
    .malformed (what ++ ": " ++ J.serdeMessage error)

/-- The issuer's signature; the payload is read once it has verified. -/
def verifySignature (jws : String) (pinned : VerifyingKey) :
    Except IdentityError Badge := do
  match segments jws with
  | [h64, p64, s64] =>
      let headerBytes ← decodePart J "header" h64
      let header ← readPart J "header"
        (readJwsHeader (docSource J.floats)) headerBytes
      if header.alg ≠ jwsAlg then .error (.algRejected header.alg)
      else if header.typ ≠ jwsTyp then
        .error (.malformed ("unexpected typ " ++ header.typ))
      else if header.kid ≠ keyFingerprint pinned then .error .pubkeyMismatch
      else
        let sigBytes ← decodePart J "signature" s64
        match toSignature sigBytes with
        | none => .error (.malformed "signature length")
        | some sig =>
            if !J.verifyStrict pinned (ByteText.encode (h64 ++ "." ++ p64))
              sig then .error .badSignature
            else
              let payloadBytes ← decodePart J "payload" p64
              let badge ← readPart J "payload"
                (readBadge (docSource J.floats)) payloadBytes
              if badgeType ∉ badge.types then
                .error (.malformed
                  ("credential type must include " ++ badgeType))
              else return badge
  | _ => .error (.malformed "expected 3 dot-separated JWS segments")

/-- Delegated authority does not outlive its credential, and its expiry is in
the graph's own range. -/
def verify (jws : String) (pinned : VerifyingKey) (now : UInt64) :
    Except IdentityError Badge := do
  let badge ← verifySignature J jws pinned
  if now < badge.validFrom then .error (.notYetValid now badge.validFrom)
  else if badge.validUntil < now then .error (.expired now badge.validUntil)
  else if badge.validUntil < badge.subject.expiry then
    .error (.subjectInvalid ("subject expiry " ++
      toString badge.subject.expiry ++ " outlives the badge validUntil " ++
      toString badge.validUntil))
  else if 2 ^ 63 ≤ badge.subject.expiry.toNat then
    .error (.subjectInvalid ("subject expiry " ++
      toString badge.subject.expiry ++
      " exceeds the maximum representable value 9223372036854775807"))
  else return badge

/-! ## What is issued verifies -/

section RoundTrip

variable (floats : Serde.FloatText)

theorem readJwsHeader_toDoc (header : JwsHeader) :
    readJwsHeader (docSource floats) header.toDoc = .ok header := by
  have hread := Serde.readString_stringDoc floats
  simp [readJwsHeader, JwsHeader.toDoc, expectStruct, required, Serde.field,
    Serde.member, present, hread, bind, Except.bind, pure, Except.pure]

theorem readCredentialSchema_toDoc (schema : CredentialSchema) :
    readCredentialSchema (docSource floats) schema.toDoc = .ok schema := by
  have hread := Serde.readString_stringDoc floats
  simp [readCredentialSchema, CredentialSchema.toDoc, expectStruct, required,
    Serde.field, Serde.member, present, hread, bind, Except.bind, pure,
    Except.pure]

theorem readVec_map {α : Type} {toDoc : α → Doc}
    {read : Doc → Except SerdeError α}
    (hread : ∀ inner, read (toDoc inner) = .ok inner) (values : List α) :
    readVec (docSource floats) read (.array (values.map toDoc)) =
      .ok values := by
  unfold readVec
  simp only [docSource, Serde.docShape]
  induction values with
  | nil => rfl
  | cons value rest ih =>
      rw [List.map_cons, List.mapM_cons, ih, hread]
      rfl

theorem readU64_numberDoc (value : UInt64) :
    readU64 (docSource floats) (numberDoc value) = .ok value :=
  Serde.readU64_naturalText floats value

theorem readOption_nullableDoc (value : Option String) :
    readOption (docSource floats) (readString (docSource floats))
      (nullableDoc value) = .ok value := by
  cases value with
  | none => rfl
  | some text => exact readOption_stringDoc floats text

theorem readBadgeSubject_toDoc (subject : BadgeSubject) :
    readBadgeSubject (docSource floats) subject.toDoc = .ok subject := by
  have hread := Serde.readString_stringDoc floats
  have hoption := readOption_stringDoc floats
  have hscopes : readVec (docSource floats) (readString (docSource floats))
      (stringsDoc subject.scopes) = .ok subject.scopes :=
    readVec_map floats hread _
  have hdelegator := readOption_nullableDoc floats subject.delegator
  have hexpiry := readU64_numberDoc floats subject.expiry
  obtain ⟨id, kind, tenant, scopes, delegator, expiry, aud⟩ := subject
  cases aud <;>
    simp [readBadgeSubject, BadgeSubject.toDoc, expectStruct, required,
      defaulted, Serde.field, Serde.member, present, hread, hoption, hscopes,
      hdelegator, hexpiry, bind, Except.bind, pure, Except.pure]

theorem Badge.fields_nodup (badge : Badge) :
    (badge.fields.map Prod.fst).Nodup := by
  have hnames : badge.fields.map Prod.fst =
      ["@context", "id", "type", "issuer", "validFrom", "validUntil",
        "credentialSubject", "credentialSchema", "mission"] := rfl
  rw [hnames]
  decide

theorem readBadge_toDoc (badge : Badge) :
    readBadge (docSource floats) badge.toDoc = .ok badge := by
  have hnames := badge.fields_nodup
  have hstrings : ∀ values,
      readVec (docSource floats) (readString (docSource floats))
        (stringsDoc values) = .ok values :=
    readVec_map floats (Serde.readString_stringDoc floats)
  have hcontext := Serde.required_present hnames 0 "@context" rfl
    (readVec (docSource floats) (readString (docSource floats)))
  have hid := defaulted_optional floats hnames 1 "id" rfl
    (Serde.readString_stringDoc floats) (fun _ => by simp [stringDoc])
  have htypes := Serde.required_present hnames 2 "type" rfl
    (readVec (docSource floats) (readString (docSource floats)))
  have hissuer := Serde.required_present hnames 3 "issuer" rfl
    (readString (docSource floats))
  have hfrom := Serde.required_present hnames 4 "validFrom" rfl
    (readU64 (docSource floats))
  have huntil := Serde.required_present hnames 5 "validUntil" rfl
    (readU64 (docSource floats))
  have hsubject := Serde.required_present hnames 6 "credentialSubject" rfl
    (readBadgeSubject (docSource floats))
  have hschema := defaulted_optional floats hnames 7 "credentialSchema" rfl
    (readVec_map floats (readCredentialSchema_toDoc floats))
    (fun _ => by simp [schemasDoc])
  have hmission := defaulted_optional floats hnames 8 "mission" rfl
    (readMissionRef_toDoc floats) (fun _ => structDoc_ne_null _)
  unfold readBadge Badge.toDoc
  simp only [Serde.docSource_shape, Serde.docShape_structDoc, expectStruct,
    hcontext, hid, htypes, hissuer, hfrom, huntil, hsubject, hschema,
    hmission, hstrings, readU64_numberDoc, readBadgeSubject_toDoc,
    Serde.readString_stringDoc, bind, Except.bind, pure, Except.pure]

theorem fromSlice_jsonText {α : Type} {read : Doc → Except SerdeError α}
    (fields : List (String × Option Doc)) :
    fromSlice read (jsonText (structDoc fields)) =
      read (structDoc fields) := by
  have hparse : JsonText.parse (JsonText.print (structDoc fields)) =
      some (structDoc fields) := JsonText.parse_print_object _
  rw [fromSlice, jsonText, ByteText.decode_encode]
  simp only [Option.bind_some, String.toList_ofList, hparse]

end RoundTrip

theorem trim_of_solid {text : String}
    (hsolid : ∀ c ∈ text.toList, RustText.isWhitespace c = false) :
    RustText.trim text = text := by
  have hkept : ∀ chars : List Char,
      (∀ c ∈ chars, RustText.isWhitespace c = false) →
      chars.dropWhile RustText.isWhitespace = chars := by
    intro chars hchars
    cases chars with
    | nil => rfl
    | cons c rest =>
        rw [List.dropWhile_cons_of_neg]
        simp [hchars c (by simp)]
  rw [RustText.trim, RustText.trimChars, hkept _ hsolid, hkept,
    List.reverse_reverse, String.ofList_toList]
  intro c hc
  exact hsolid c (List.mem_reverse.mp hc)

/-- Three parts without a dot or white space are the segments of a JWS. -/
theorem segments_of_parts {first second third : String}
    (hparts : ∀ part ∈ [first, second, third], ∀ c ∈ part.toList,
      c ≠ '.' ∧ RustText.isWhitespace c = false) :
    segments (first ++ "." ++ second ++ "." ++ third) =
      [first, second, third] := by
  have hsolid : ∀ c ∈ (first ++ "." ++ second ++ "." ++ third).toList,
      RustText.isWhitespace c = false := by
    intro c hc
    simp only [String.toList_append, List.mem_append] at hc
    rcases hc with (((hc | hc) | hc) | hc) | hc
    · exact (hparts first (by simp) c hc).2
    · rw [List.mem_singleton.mp hc]
      rfl
    · exact (hparts second (by simp) c hc).2
    · rw [List.mem_singleton.mp hc]
      rfl
    · exact (hparts third (by simp) c hc).2
  have hlist : (first ++ "." ++ second ++ "." ++ third).toList =
      ['.'].intercalate
        [first.toList, second.toList, third.toList] := by
    simp [List.intercalate, String.toList_append]
  have hdots : ∀ part ∈ [first.toList, second.toList, third.toList],
      '.' ∉ part := by
    intro part hpart hdot
    simp only [List.mem_cons, List.not_mem_nil, or_false] at hpart
    rcases hpart with rfl | rfl | rfl
    · exact (hparts first (by simp) '.' hdot).1 rfl
    · exact (hparts second (by simp) '.' hdot).1 rfl
    · exact (hparts third (by simp) '.' hdot).1 rfl
  rw [segments, trim_of_solid hsolid, hlist,
    List.splitOn_intercalate '.' hdots (by simp)]
  simp

/-- A badge that is issued verifies under its issuer's key. -/
theorem verifySignature_issue {badge : Badge}
    (htypes : badgeType ∈ badge.types) (key : SigningKey) :
    verifySignature J (issue J badge key) (J.verifyingKey key) =
      .ok badge := by
  have hdecode : ∀ what bytes,
      decodePart J what (J.encodeUrl bytes) = .ok bytes := by
    intro what bytes
    rw [decodePart, J.decodeUrl_encodeUrl]
    rfl
  have hheader : ∀ header : JwsHeader, readPart J "header"
      (readJwsHeader (docSource J.floats)) (jsonText header.toDoc) =
        .ok header := by
    intro header
    have hread := readJwsHeader_toDoc J.floats header
    rw [JwsHeader.toDoc] at hread ⊢
    rw [readPart, fromSlice_jsonText, hread]
    rfl
  have hpayload : readPart J "payload" (readBadge (docSource J.floats))
      (jsonText badge.toDoc) = .ok badge := by
    have hread := readBadge_toDoc J.floats badge
    rw [Badge.toDoc] at hread ⊢
    rw [readPart, fromSlice_jsonText, hread]
    rfl
  have hsegments := fun first second third =>
    @segments_of_parts (J.encodeUrl first) (J.encodeUrl second)
      (J.encodeUrl third) (by
        simp only [List.forall_mem_cons, List.not_mem_nil, false_imp_iff,
          implies_true, and_true]
        exact ⟨J.encodeUrl_alphabet _, J.encodeUrl_alphabet _,
          J.encodeUrl_alphabet _⟩)
  simp only [verifySignature, issue, signCompact, hsegments, hdecode, hheader,
    hpayload, toSignature_toList, J.verify_sign, bind, Except.bind]
  simp [htypes, pure, Except.pure]

end Decern.Identity
