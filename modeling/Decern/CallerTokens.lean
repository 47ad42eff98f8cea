import Decern.AgentBadge
import Decern.DecideRequest
import Decern.DoubleArithmetic
import Decern.HttpSignature
import Mathlib.Tactic

/-!
# Tokens of callers

What the postures that establish a caller share: the decoding of a compact
JWS, the claims read from it, the keys a JWK names, and who a verified
credential says the caller is.
-/

namespace Decern

open ByteText (Bytes)
open Decide (brief)
open FiniteDouble (rounded)
open JsonText (Doc)
open Serde (FloatText Map SerdeError Source Value defaulted docSource
  expectStruct readMap readOption readString required)

/-- Host and port of a request target or a `Host` line. -/
structure Authority where
  host : String
  port : Option String
  deriving DecidableEq, Repr

/-- The parsers, digests and signatures a verifier of requests is built on. -/
structure Verifier where
  floats : FloatText
  codec : Sfv.Codec
  parseAuthority : Bytes → Option Authority
  decodeUrl : String → Option Bytes
  decodeBase64 : String → Option Bytes
  sha256 : Bytes → Bytes
  sha256_length : ∀ bytes, (sha256 bytes).length = 32
  validPoint : VerifyingKey → Bool
  verifyStrict : VerifyingKey → Bytes → Signature → Bool

/-! ## Who the caller is -/

namespace Decide.Authenticated

def new (subject clientId issuer : String) : Authenticated :=
  { subject, clientId, issuer := some issuer, bind := .any }

def withoutIssuer (subject clientId : String) : Authenticated :=
  { subject, clientId, issuer := none, bind := .any }

/-- The caller restricted to naming itself. -/
def selfOnly (who : Authenticated) : Authenticated :=
  { who with bind := .selfOnly }

end Decide.Authenticated

theorem size_of_length {bytes : Bytes} (h : bytes.length = 32) :
    bytes.toArray.size = 32 := by
  simpa using h

def toVerifyingKey (bytes : Bytes) : Option VerifyingKey :=
  if h : bytes.length = 32 then some ⟨bytes.toArray, size_of_length h⟩
  else none

def orInvalid {α : Type} (result : Except String α) : Except Denied α :=
  result.mapError Denied.invalid

variable (V : Verifier)

/-! ## Compact tokens -/

namespace Jose

def decodeJson {α : Type} (read : Doc → Except SerdeError α)
    (part what : String) : Except String α :=
  match V.decodeUrl part with
  | none => .error s!"{what} is not base64url"
  | some bytes =>
      match Identity.fromSlice read bytes with
      | .error _ => .error s!"{what} is not JSON"
      | .ok value => .ok value

/-- A part read as a map from names to values. -/
def decodeMap (part what : String) : Except Denied Map :=
  orInvalid (decodeJson V (readMap (docSource V.floats) 0) part what)

section Written

variable {V}

/-- A part that is the text of a tree is read from that tree. -/
theorem decodeJson_of_doc {α : Type} {read : Doc → Except SerdeError α}
    {part what : String} {doc : Doc} {value : α}
    (hdecode : V.decodeUrl part = some (Identity.jsonText doc))
    (hread : read doc = .ok value) :
    decodeJson V read part what = .ok value := by
  rw [decodeJson, hdecode]
  simp only [Identity.fromSlice, Identity.jsonText, ByteText.decode_encode,
    Option.bind_some, String.toList_ofList, JsonText.parse_print, hread]

theorem namedMembers_toMembers (floats : FloatText) (members : Map) :
    Serde.namedMembers (Value.toMembers floats members) =
      some (members.map fun member =>
        (member.1, member.2.toDoc floats)) := by
  induction members with
  | nil => rfl
  | cons member rest ih =>
      rcases member with ⟨name, value⟩
      unfold Serde.namedMembers at ih ⊢
      rw [Value.toMembers, List.mapM_cons, ih]
      simp

/-- A part that is the text of an object is read as its members. -/
theorem decodeMap_of_members {part what : String} {members : Map}
    (hdecode : V.decodeUrl part = some
      (Identity.jsonText ((Value.object members).toDoc V.floats)))
    (hnesting : (Value.object members).nesting < Serde.recursionLimit)
    (hvalue : Value.ofDoc V.floats ((Value.object members).toDoc V.floats) =
      some (.object members)) :
    decodeMap V part what = .ok members := by
  have hshape : Serde.docShape V.floats
      ((Value.object members).toDoc V.floats) =
        .object (members.map fun member =>
          (member.1, member.2.toDoc V.floats)) := by
    rw [Value.toDoc, Serde.docShape, namedMembers_toMembers]
  have hread : Serde.readValue V.floats 0
      ((Value.object members).toDoc V.floats) = some (.object members) := by
    rw [Serde.readValue, Value.nesting_toDoc, Nat.zero_add, if_pos hnesting,
      hvalue]
  have hmap : readMap (docSource V.floats) 0
      ((Value.object members).toDoc V.floats) = .ok members := by
    simp only [readMap, docSource, hshape, hread]
  rw [decodeMap, decodeJson_of_doc hdecode hmap]
  rfl

end Written

/-- The three parts of a token. -/
def split (token : String) : Option (String × String × String) :=
  match (token.toList.splitOn '.').map String.ofList with
  | [h, p, s] => some (h, p, s)
  | _ => none

/-- Matched exactly, never as the start of a longer name. -/
def audienceContains (aud : Option Value) (want : String) : Bool :=
  match aud with
  | some (.string s) => s == want
  | some (.array xs) => xs.any fun x => x.asStr == some want
  | _ => false

/-- A claim that must be a number where it is present. -/
def numericDate (claims : Map) (name what : String) :
    Except String (Option ℚ) :=
  match claims.get name with
  | none => .ok none
  | some value =>
      match value.asF64 with
      | some seconds => .ok (some seconds)
      | none => .error s!"{what} {name} is not a number"

def requireDate (claims : Map) (name what : String) : Except Denied ℚ := do
  match ← orInvalid (numericDate claims name what) with
  | some seconds => .ok seconds
  | none => .error (.invalid s!"{what} carries no {name}")

/-- The expiry of a token that has not reached it. -/
def unexpired (claims : Map) (now : ℤ) (what : String) :
    Except Denied ℚ := do
  let exp ← requireDate claims "exp" what
  if exp ≤ rounded now then .error (.invalid s!"{what} has expired")
  else .ok exp

/-- Where a token says when it begins, it has begun. -/
def begun (claims : Map) (now : ℤ) (what : String) : Except Denied Unit := do
  match ← orInvalid (numericDate claims "nbf" what) with
  | some nbf =>
      if rounded now < nbf then
        .error (.invalid s!"{what} is not yet valid")
      else .ok ()
  | none => .ok ()

def getStr (claims : Map) (name : String) : Option String :=
  (claims.get name).bind Value.asStr

/-- A name of a token that must be one text. -/
def requireName (claims : Map) (name want missing : String)
    (other : String → String) : Except Denied Unit :=
  match getStr claims name with
  | some value =>
      if value = want then .ok () else .error (.invalid (other value))
  | none => .error (.invalid missing)

/-- A configured key with the name that selects it. -/
structure NamedKey (κ : Type) where
  kid : String
  key : κ
  deriving DecidableEq

/-- The key a token's `kid` names, or the only one. -/
def selectKey {κ : Type} (keys : List (NamedKey κ)) (kid : Option String)
    (unknown : String → String) (ambiguous : String) :
    Except Denied (NamedKey κ) :=
  match kid with
  | some kid =>
      match keys.find? fun key => key.kid == kid with
      | some key => .ok key
      | none => .error (.invalid (unknown kid))
  | none =>
      match keys with
      | [key] => .ok key
      | _ => .error (.invalid ambiguous)

/-- The first of some names in order. -/
def firstName : List String → Option String
  | [] => none
  | name :: rest =>
      some (rest.foldl (fun first other =>
        if other < first then other else first) name)

/-- The first name of a header that is not a permitted one. -/
def unknownName (permitted : List String) (head : Map) : Option String :=
  firstName ((head.map Prod.fst).filter fun name =>
    !permitted.contains name)

end Jose

/-! ## Keys -/

/-- A JSON Web Key that names its algorithm. -/
structure Jwk where
  kty : String
  crv : Option String
  x : Option String
  alg : Option String
  kid : Option String
  use : Option String
  deriving DecidableEq, Repr

namespace Jwk

def algorithm : String := "Ed25519"

def read {δ : Type} (source : Source δ) (tree : δ) :
    Except SerdeError Jwk := do
  let shape := source.shape tree
  expectStruct 6 shape
  let kty ← defaulted shape 0 "kty" "" (readString source)
  let crv ← defaulted shape 1 "crv" none
    (readOption source (readString source))
  let x ← defaulted shape 2 "x" none (readOption source (readString source))
  let alg ← defaulted shape 3 "alg" none
    (readOption source (readString source))
  let kid ← defaulted shape 4 "kid" none
    (readOption source (readString source))
  let use ← defaulted shape 5 "use" none
    (readOption source (readString source))
  return { kty, crv, x, alg, kid, use }

/-- The key whose text is `x`. -/
def point (x notText notLong notPoint : String) :
    Except String VerifyingKey :=
  match V.decodeUrl x with
  | none => .error notText
  | some bytes =>
      match toVerifyingKey bytes with
      | none => .error notLong
      | some key => if V.validPoint key then .ok key else .error notPoint

/-- The algorithm is taken from `alg`, and the other members must agree. -/
def ed25519 (jwk : Jwk) : Except String VerifyingKey :=
  if jwk.kty = "oct" then
    .error "a symmetric key (kty oct) cannot verify a signature"
  else
    match jwk.alg with
    | none =>
        .error "the key names no alg, and the algorithm is taken from it"
    | some alg =>
        if "HS".toList.isPrefixOf alg.toList then
          .error s!"alg {brief alg} names a shared secret, not a public key"
        else if alg = "EdDSA" then
          .error (s!"alg EdDSA is polymorphic; this deployment verifies " ++
            algorithm)
        else if alg ≠ algorithm then
          .error (s!"alg {brief alg} is not one this deployment verifies; " ++
            s!"{algorithm} only")
        else if jwk.kty ≠ "OKP" ∨ jwk.crv ≠ some "Ed25519" then
          .error (s!"alg {algorithm} needs kty OKP and crv Ed25519, and " ++
            "this key disagrees")
        else
          match jwk.x with
          | none => .error "the key carries no x"
          | some x =>
              point V x "the key's x is not base64url"
                "the key's x is not 32 bytes"
                "the key's x is not a valid point"

end Jwk

end Decern
