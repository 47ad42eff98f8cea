import Decern.AgentTokens
import Mathlib.Tactic

/-!
# Workload identities

The posture whose bearers carry a token signed by a key of their own trust
domain.
-/

namespace Decern.Spiffe

open ByteText (Bytes)
open Decide (Authenticated)
open FiniteDouble (rounded)
open Serde (Map)

def maxTokenBytes : ℕ := 8192

def acceptedAlg : String := "ES256"

def permittedHeaders : List String := ["alg", "kid", "typ"]

/-- The coordinates of a point. -/
structure PointKey where
  x : Vector UInt8 32
  y : Vector UInt8 32
  deriving DecidableEq

/-- Signatures on the other curve. -/
structure P256 where
  fromSlice : Bytes → Option Signature
  verify : PointKey → Bytes → Signature → Bool

abbrev BundleKey := Jose.NamedKey PointKey

/-- The keys of each trust domain, by its exact name. -/
structure Config where
  trustDomains : List (String × List BundleKey)
  audience : String
  pep : List String

def domainChar (c : Char) : Bool :=
  c.isLower || c.isDigit || c == '.' || c == '-' || c == '_'

/-- The trust domain of `spiffe://domain/path`. -/
def trustDomainOf (id : String) : Option String :=
  match (stripFront "spiffe://".toList id.toList).bind
      (splitOnce '/') with
  | some parts =>
      if parts.1.isEmpty || parts.2.isEmpty then none
      else if parts.1.all domainChar then some (String.ofList parts.1)
      else none
  | none => none

variable (V : Verifier) (P : P256)

/-- What follows the scheme of an `Authorization` header. -/
def bearer (raw : String) : Except Denied String :=
  match splitOnce ' ' raw.toList with
  | some parts =>
      if eqIgnoreAsciiCase (String.ofList parts.1) "Bearer" then
        .ok (RustText.trim (String.ofList parts.2))
      else .error (.invalid "authorization scheme is not Bearer")
  | none => .error (.invalid "authorization scheme is not Bearer")

def checkHeader (head : Map) : Except Denied Unit := do
  match Jose.unknownName permittedHeaders head with
  | some unknown =>
      .error (.invalid (s!"JOSE header {printable unknown} is not " ++
        "permitted in a JWT-SVID"))
  | none => .ok ()
  match Jose.getStr head "typ" with
  | none => .ok ()
  | some t =>
      if t = "JWT" ∨ t = "JOSE" then .ok ()
      else .error (.invalid
        s!"token type {printable t} is not a JWT-SVID type")
  Jose.requireName head "alg" acceptedAlg "token names no algorithm"
    fun other => s!"algorithm {printable other} is not accepted here; " ++
      s!"this deployment verifies {acceptedAlg} only"

def bundleKey (domain : String) (bundle : List BundleKey)
    (kid : Option String) : Except Denied BundleKey :=
  Jose.selectKey bundle kid
    (fun kid => s!"no key {printable kid} in the bundle for " ++
      printable domain)
    "token names no kid and its trust domain has more than one key"

/-- A token whose signature a key of its trust domain verified. -/
structure Token where
  subject : String
  domain : String
  claims : Map

def verifyToken (cfg : Config) (text : String) : Except Denied Token :=
  match Jose.split text with
  | none => .error (.invalid "token is not a compact JWS")
  | some parts =>
      if parts.2.2 = "" then .error (.invalid "token is not a compact JWS")
      else do
        let head ← Jose.decodeMap V parts.1 "token header"
        checkHeader head
        let claims ← Jose.decodeMap V parts.2.1 "token claims"
        match Jose.getStr claims "sub" with
        | none => .error (.invalid "token carries no sub")
        | some subject =>
            match trustDomainOf subject with
            | none =>
                .error (.invalid (s!"sub {printable subject} is not a " ++
                  "SPIFFE ID naming a workload"))
            | some domain =>
                match cfg.trustDomains.lookup domain with
                | none =>
                    .error (.invalid (s!"trust domain {printable domain} " ++
                      "is not configured here"))
                | some bundle => do
                    let key ← bundleKey domain bundle
                      (Jose.getStr head "kid")
                    match V.decodeUrl parts.2.2 with
                    | none =>
                        .error (.invalid "signature is not base64url")
                    | some bytes =>
                        match P.fromSlice bytes with
                        | none =>
                            .error (.invalid
                              "signature is not a P-256 signature")
                        | some signature =>
                            if !P.verify key.key (ByteText.encode
                                (parts.1 ++ "." ++ parts.2.1)) signature then
                              .error (.invalid ("signature does not " ++
                                "verify against the trust bundle"))
                            else .ok { subject, domain, claims }

/-- A workload speaks for itself unless it is named otherwise. -/
def Config.caller (cfg : Config) (subject domain : String) : Authenticated :=
  let who := Authenticated.new subject subject ("spiffe://" ++ domain)
  if cfg.pep.contains subject then who else who.selfOnly

def authenticate (header : Option String) (cfg : Config) (now : UInt64) :
    Except Denied Authenticated :=
  if cfg.trustDomains.isEmpty then
    .error (.invalid "no trust domains are configured")
  else
    match header with
    | none => .error .noCredentials
    | some raw => do
        let text ← bearer raw
        if maxTokenBytes < text.utf8ByteSize then
          .error (.invalid "token exceeds the accepted size")
        else do
          let token ← verifyToken V P cfg text
          if trustDomainOf token.subject ≠ some token.domain then
            .error (.invalid ("verified sub does not belong to the trust " ++
              "domain that verified it"))
          else if !Jose.audienceContains (token.claims.get "aud")
              cfg.audience then
            .error (.invalid
              "token was not issued for this server as audience")
          else do
            let _ ← Jose.unexpired token.claims now.toNat "token"
            Jose.begun token.claims now.toNat "token"
            .ok (cfg.caller token.subject token.domain)

/-- The caller of a request, from its first `Authorization` header. -/
def Config.authenticate (cfg : Config) (req : Request) (now : UInt64) :
    Except Denied Authenticated :=
  Spiffe.authenticate V P
    ((headerLines req.headers "authorization").head?.bind toStr) cfg now

end Decern.Spiffe
