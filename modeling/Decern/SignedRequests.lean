import Decern.CallerTokens
import Mathlib.Tactic

/-!
# Signed requests

The header fields a signature posture reads, the components a request must
cover, and the base its one signature is checked against.
-/

namespace Decern

open ByteText (Bytes)
open HttpSig (Message Presented)

/-! ## Text -/

def lowerAscii (s : String) : String :=
  String.ofList (s.toList.map Char.toLower)

def eqIgnoreAsciiCase (left right : String) : Bool :=
  lowerAscii left == lowerAscii right

/-- What follows `front` at the start of a text. -/
def stripFront (front text : List Char) : Option (List Char) :=
  if front.isPrefixOf text then some (text.drop front.length) else none

def stripBack (back text : List Char) : Option (List Char) :=
  (stripFront back.reverse text.reverse).map List.reverse

/-! ## Requests -/

/-- A request as the server has it; a header is found by its lowercase name. -/
structure Request where
  method : String
  target : Option Authority
  path : String
  headers : List (String × Bytes)
  deriving DecidableEq, Repr

def headerLines (headers : List (String × Bytes)) (name : String) : List Bytes :=
  (headers.filter fun header => header.1 == name).map Prod.snd

/-- `HeaderValue::to_str`: visible characters and tabs. -/
def toStr (value : Bytes) : Option String :=
  if value.all fun b => (32 ≤ b && b < 127) || b == 9 then
    some (String.ofList (value.map fun b => Char.ofNat b.toNat))
  else none

/-- The characters `to_str` accepts. -/
def visible (c : Char) : Bool :=
  (32 ≤ c.toNat && c.toNat < 127) || c.toNat == 9

theorem visible_lt {c : Char} (hc : visible c = true) : c.toNat < 128 := by
  simp only [visible, Bool.or_eq_true, Bool.and_eq_true, decide_eq_true_iff,
    beq_iff_eq] at hc
  omega

theorem encode_visible {text : String}
    (hvisible : text.toList.all visible = true) :
    ByteText.encode text = text.toList.map fun c => UInt8.ofNat c.toNat := by
  rw [ByteText.encode, ← List.flatMap_pure_eq_map]
  apply List.flatMap_congr
  intro c hc
  have hlow := visible_lt (List.all_eq_true.mp hvisible c hc)
  have hval : c.val.toNat ≤ 127 := Nat.le_of_lt_succ hlow
  simp only [String.utf8EncodeChar, if_pos hval]
  rfl

theorem utf8ByteSize_visible {text : String}
    (hvisible : text.toList.all visible = true) :
    text.utf8ByteSize = text.toList.length := by
  have hbytes := congrArg ByteArray.size (ByteText.toByteArray_eq text)
  rw [encode_visible hvisible] at hbytes
  have hsize : text.utf8ByteSize = text.toByteArray.size := rfl
  rw [hsize, ← hbytes, ByteArray.size, List.size_toArray, List.length_map]

/-- A visible text is read back from its bytes. -/
theorem toStr_encode {text : String}
    (hvisible : text.toList.all visible = true) :
    toStr (ByteText.encode text) = some text := by
  have hbyte : ∀ c ∈ text.toList, (UInt8.ofNat c.toNat).toNat = c.toNat := by
    intro c hc
    have hlow := visible_lt (List.all_eq_true.mp hvisible c hc)
    rw [UInt8.toNat_ofNat']
    omega
  have hbytes : (text.toList.map fun c => UInt8.ofNat c.toNat).all
      (fun b => (32 ≤ b && b < 127) || b == 9) = true := by
    rw [List.all_map, List.all_eq_true]
    intro c hc
    have hseen := List.all_eq_true.mp hvisible c hc
    simpa [visible, UInt8.le_iff_toNat_le, UInt8.lt_iff_toNat_lt,
      ← UInt8.toNat_inj, hbyte c hc] using hseen
  have hchars : ((text.toList.map fun c => UInt8.ofNat c.toNat).map
      fun b => Char.ofNat b.toNat) = text.toList := by
    rw [List.map_map]
    conv_rhs => rw [← List.map_id text.toList]
    apply List.map_congr_left
    intro c hc
    rw [Function.comp_apply, hbyte c hc, Char.ofNat_toNat, id]
  rw [encode_visible hvisible, toStr, if_pos hbytes, hchars,
    String.ofList_toList]

namespace HttpSig

/-- The lines of a name, each trimmed, joined. -/
def field (headers : List (String × Bytes)) (name : String) :
    Except Denied (Option String) := do
  let values ← (headerLines headers name).mapM fun line =>
    match toStr line with
    | none => .error (.invalid s!"{name} is not visible ASCII")
    | some value => .ok (RustText.trim value)
  .ok (if values.isEmpty then none else some (", ".intercalate values))

/-- A field of one line that is visible and trimmed. -/
theorem field_of_line {headers : List (String × Bytes)} {name text : String}
    (hline : headerLines headers name = [ByteText.encode text])
    (hvisible : text.toList.all visible = true)
    (htrim : RustText.trimChars text.toList = text.toList) :
    field headers name = .ok (some text) := by
  have htext : RustText.trim text = text := by
    rw [RustText.trim, htrim, String.ofList_toList]
  rw [field, hline, List.mapM_cons, List.mapM_nil, toStr_encode hvisible]
  simp only [htext, String.intercalate_singleton, List.isEmpty_cons, bind,
    Except.bind, pure, Except.pure, Bool.false_eq_true, if_false]

/-- The host and port a request was sent to, from its target or its one
`Host`. -/
def authority (V : Verifier) (target : Option Authority)
    (headers : List (String × Bytes)) : Except Denied String := do
  let parsed ← match target with
    | some authority => .ok authority
    | none =>
        match headerLines headers "host" with
        | [host] =>
            match V.parseAuthority host with
            | some authority => .ok authority
            | none => .error (.invalid "Host is not an authority")
        | _ => .error (.invalid "request must carry exactly one Host")
  let host := lowerAscii parsed.host
  .ok (match parsed.port with
    | some port => s!"{host}:{port}"
    | none => host)

/-! ## What a posture asks of a signature -/

def i64Min : ℤ := -9223372036854775808

def i64Max : ℤ := 9223372036854775807

def saturatingSub (left right : ℤ) : ℤ :=
  max i64Min (min i64Max (left - right))

namespace Presented

variable (p : Presented)

def coversExactly (required : List String) : Except Denied Unit :=
  if p.components ≠ required then
    .error (.invalid
      "Signature-Input does not cover exactly the required components")
  else .ok ()

def covers (required : List String) : Except Denied Unit :=
  match required.find? fun name => !p.components.contains name with
  | some missing =>
      .error (.invalid ("Signature-Input does not cover the required " ++
        s!"components: {missing} is missing"))
  | none => .ok ()

def unexpired (now : ℤ) : Except Denied Unit :=
  match p.expires with
  | some expires =>
      if expires < now then .error (.invalid "signature has expired")
      else .ok ()
  | none => .ok ()

def fresh (now behind ahead : ℤ) : Except Denied Unit :=
  let age := saturatingSub now p.created
  if -ahead ≤ age ∧ age ≤ behind then .ok ()
  else .error (.invalid
    "signature is outside the accepted freshness window")

end Presented

end HttpSig

namespace Sig

def label : String := "sig1"

def maxTokenBytes : ℕ := 8192

def maxSignatureAgeSecs : ℤ := 60

def maxClockSkewAheadSecs : ℤ := 5

def unbodiedComponents : List String :=
  ["@method", "@authority", "@path", "signature-key"]

def bodiedComponents : List String :=
  ["@method", "@authority", "@path", "content-digest", "signature-key"]

/-- A body is covered, and a `POST` covers an empty one. -/
def requiredComponents (method : String) (body : Bytes) : List String :=
  if eqIgnoreAsciiCase method "POST" || !body.isEmpty then bodiedComponents
  else unbodiedComponents

variable (V : Verifier)

def parseSha256ContentDigest (raw : String) : Except Denied Bytes := do
  let rest ← match (stripFront "sha-256=:".toList
      (RustText.trim raw).toList).bind (stripBack [':']) with
    | some rest => .ok (String.ofList rest)
    | none =>
        .error (.invalid "Content-Digest is not sha-256=:…: (RFC 9530)")
  match V.decodeBase64 rest with
  | none => .error (.invalid "Content-Digest is not valid base64")
  | some bytes =>
      if bytes.length = 32 then .ok bytes
      else .error (.invalid "Content-Digest sha-256 value is not 32 bytes")

/-- The fields of a request that a signature posture reads. -/
structure SignedRequest where
  method : String
  authority : String
  path : String
  signatureKey : Option String
  signatureInput : Option String
  signature : Option String
  contentDigest : Option String
  body : Bytes
  deriving DecidableEq, Repr

def fromRequest (req : Request) (body : Bytes) :
    Except Denied SignedRequest := do
  let authority ← HttpSig.authority V req.target req.headers
  let signatureKey ← HttpSig.field req.headers "signature-key"
  let signatureInput ← HttpSig.field req.headers "signature-input"
  let signature ← HttpSig.field req.headers "signature"
  let contentDigest ← HttpSig.field req.headers "content-digest"
  .ok { method := req.method, authority, path := req.path, signatureKey,
        signatureInput, signature, contentDigest, body }

/-- The three signature headers, each present and within its size. -/
structure SignatureHeaders where
  key : String
  input : String
  signature : String
  deriving DecidableEq, Repr

namespace SignedRequest

variable (req : SignedRequest)

def sentTo (authority : String) : Except Denied Unit :=
  if eqIgnoreAsciiCase req.authority authority then .ok ()
  else .error (.invalid "request authority is not this deployment")

def signatureHeaders : Except Denied SignatureHeaders :=
  match req.signatureKey with
  | none => .error .noCredentials
  | some key =>
      match req.signatureInput with
      | none => .error (.invalid "request carries no Signature-Input")
      | some input =>
          match req.signature with
          | none => .error (.invalid "request carries no Signature")
          | some signature =>
              if maxTokenBytes < key.utf8ByteSize ∨
                  maxTokenBytes < input.utf8ByteSize ∨
                  maxTokenBytes < signature.utf8ByteSize then
                .error (.invalid
                  "signature material exceeds the accepted size")
              else .ok { key, input, signature }

/-- The one signature of the signed-request profile. -/
def presented (headers : SignatureHeaders) (now : ℤ) :
    Except Denied Presented := do
  let p ← HttpSig.presented V.codec label headers.input headers.signature
  p.coversExactly (requiredComponents req.method req.body)
  p.fresh now maxSignatureAgeSecs maxClockSkewAheadSecs
  .ok p

/-- The digest field, once it is the digest of the body. -/
def boundContentDigest : Except Denied String :=
  match req.contentDigest with
  | none => .error (.invalid "request carries no Content-Digest")
  | some raw =>
      if maxTokenBytes < raw.utf8ByteSize then
        .error (.invalid "Content-Digest exceeds the accepted size")
      else do
        let claimed ← parseSha256ContentDigest V raw
        if claimed ≠ V.sha256 req.body then
          .error (.invalid "Content-Digest does not match the request body")
        else .ok raw

/-- The fields a signature may cover, each by the first of its name. -/
def coverable (signatureKey : String) (p : Presented)
    (extra : List (String × String)) :
    Except Denied (List (String × String)) :=
  if p.components.contains "content-digest" then do
    let digest ← req.boundContentDigest V
    .ok (("signature-key", signatureKey) :: ("content-digest", digest) ::
      extra)
  else .ok (("signature-key", signatureKey) :: extra)

def message (fields : List (String × String)) : Message :=
  { method := req.method, authority := lowerAscii req.authority,
    path := req.path, fields }

def signatureBaseWith (signatureKey : String) (p : Presented)
    (extra : List (String × String)) : Except Denied String := do
  let fields ← req.coverable V signatureKey p extra
  HttpSig.signatureBase (req.message fields) p

def signatureBase (signatureKey : String) (p : Presented) :
    Except Denied String :=
  req.signatureBaseWith V signatureKey p []

end SignedRequest

end Sig

end Decern
