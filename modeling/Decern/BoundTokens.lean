import Decern.SignedRequests
import Mathlib.Tactic

/-!
# Signed requests with a bound token

The posture whose agents are named in configuration: the token a request
carries names an agent and confirms one of the keys configured for it, and
under that key the request itself must verify.
-/

namespace Decern.Sig

open ByteText (Bytes)
open Decide (Authenticated)
open FiniteDouble (rounded)
open HttpSig (Presented)
open Serde (Map SerdeError Source Value defaulted docSource expectStruct
  readOption readString required valueSource)

/-- The keys each agent may sign with, and what this deployment is called. -/
structure Config where
  agents : List (String × List VerifyingKey)
  audience : String
  authority : String
  pep : List String

structure Header where
  typ : Option String
  alg : Option String
  deriving DecidableEq, Repr

structure JwkEd25519 where
  kty : String
  crv : String
  x : String
  deriving DecidableEq, Repr

section Readers

variable {δ : Type} (source : Source δ)

def readHeader (tree : δ) : Except SerdeError Header := do
  let shape := source.shape tree
  expectStruct 2 shape
  let typ ← defaulted shape 0 "typ" none
    (readOption source (readString source))
  let alg ← defaulted shape 1 "alg" none
    (readOption source (readString source))
  return { typ, alg }

def readJwkEd25519 (tree : δ) : Except SerdeError JwkEd25519 := do
  let shape := source.shape tree
  expectStruct 3 shape
  let kty ← required shape 0 "kty" (readString source)
  let crv ← required shape 1 "crv" (readString source)
  let x ← required shape 2 "x" (readString source)
  return { kty, crv, x }

/-- A `cnf` of one member, the key. -/
def readCnf (tree : δ) : Except SerdeError JwkEd25519 := do
  let shape := source.shape tree
  expectStruct 1 shape
  required shape 0 "jwk" (readJwkEd25519 source)

end Readers

variable (V : Verifier)

def jwkToVerifyingKey (jwk : JwkEd25519) : Except Denied VerifyingKey :=
  if jwk.kty ≠ "OKP" ∨ jwk.crv ≠ "Ed25519" then
    .error (.invalid "cnf.jwk is not an Ed25519 OKP key")
  else
    orInvalid (Jwk.point V jwk.x "cnf.jwk.x is not base64url"
      "cnf.jwk.x is not 32 bytes" "cnf.jwk.x is not a valid point")

/-! ## The token -/

def checkHeader (header : Header) : Except Denied Unit := do
  match header.typ with
  | some t =>
      if eqIgnoreAsciiCase t "dpop-bound+jwt" then .ok ()
      else .error (.invalid (s!"bound token type {printable t} is not a " ++
        "signature-bound access token"))
  | none => .error (.invalid "bound token names no type")
  match header.alg with
  | some alg =>
      if alg = "EdDSA" then .ok ()
      else .error (.invalid
        s!"bound token algorithm {printable alg} is not accepted here")
  | none => .error (.invalid "bound token names no algorithm")

def requireStr (claims : Map) (name missing : String) :
    Except Denied String :=
  match Jose.getStr claims name with
  | some value => .ok value
  | none => .error (.invalid missing)

/-- The key a token's `cnf` confirms. -/
def confirmedKey (claims : Map) : Except Denied VerifyingKey :=
  match claims.get "cnf" with
  | none => .error (.invalid "bound token carries no cnf")
  | some cnf =>
      match readCnf valueSource cnf with
      | .error _ => .error (.invalid "bound token cnf is malformed")
      | .ok jwk => jwkToVerifyingKey V jwk

/-- A token's agent, the key configured for it that the token confirms, and
all that it claims. -/
structure Bound where
  agent : String
  key : VerifyingKey
  claims : Map

def bound (cfg : Config) (token : String) : Except Denied Bound :=
  match Jose.split token with
  | none => .error (.invalid "bound token is not a compact JWS")
  | some parts => do
      let header ← orInvalid (Jose.decodeJson V
        (readHeader (docSource V.floats)) parts.1 "token header")
      checkHeader header
      let claims ← Jose.decodeMap V parts.2.1 "token claims"
      let subject ← requireStr claims "sub" "bound token carries no sub"
      let _ ← requireStr claims "iss" "bound token carries no iss"
      if !Jose.audienceContains (claims.get "aud") cfg.audience then
        .error (.invalid
          "bound token was not issued for this server as audience")
      else
        match cfg.agents.lookup subject with
        | none =>
            .error (.invalid
              s!"agent {printable subject} is not configured here")
        | some keys => do
            let tokenKey ← confirmedKey V claims
            match keys.find? fun key => key == tokenKey with
            | none =>
                .error (.invalid ("bound token cnf.jwk does not match a " ++
                  "configured key for this agent"))
            | some key => .ok { agent := subject, key, claims }

def checkExpiry (claims : Map) (now : ℤ) : Except Denied Unit :=
  match (claims.get "exp").bind Value.asF64 with
  | none => .error (.invalid "bound token carries no exp")
  | some exp =>
      if exp ≤ rounded now then
        .error (.invalid "bound token has expired")
      else .ok ()

/-! ## The request -/

/-- The agent whose request this is. -/
def authenticate (req : SignedRequest) (cfg : Config) (now : ℤ) :
    Except Denied String :=
  if cfg.agents.isEmpty then
    .error (.invalid "no agent keys are configured")
  else do
    let headers ← req.signatureHeaders
    req.sentTo cfg.authority
    let p ← req.presented V headers now
    let token ← bound V cfg (RustText.trim headers.key)
    checkExpiry token.claims now
    let base ← req.signatureBase V headers.key p
    match toSignature p.signature with
    | none => .error (.invalid "signature is not 64 bytes")
    | some signature =>
        if !V.verifyStrict token.key (ByteText.encode base) signature then
          .error (.invalid ("signature does not verify against the " ++
            "configured key for this agent"))
        else .ok token.agent

/-- An agent is both the party and the client acting for it. -/
def Config.caller (cfg : Config) (agent : String) : Authenticated :=
  let who := Authenticated.withoutIssuer agent agent
  if cfg.pep.contains agent then who else who.selfOnly

/-- The caller of a request; the clock is cast to `i64`. -/
def Config.authenticate (cfg : Config) (req : Request) (now : UInt64)
    (body : Bytes) : Except Denied Authenticated := do
  let fields ← fromRequest V req body
  let agent ← Sig.authenticate V fields cfg now.toInt64.toInt
  .ok (cfg.caller agent)

end Decern.Sig
