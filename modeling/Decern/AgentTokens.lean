import Decern.NumberLayout
import Decern.SignedRequests
import Mathlib.Tactic

/-!
# Agent tokens

The posture whose agents are vouched for by configured providers: a
provider's key signs the token, the token confirms a key, and that key signs
the request.
-/

namespace Decern.Aauth

open ByteText (Bytes)
open Decide (Authenticated brief)
open FiniteDouble (rounded)
open HttpSig (Presented Profile)
open Serde (Map SerdeError Source Value docSource expectStruct required
  valueSource)
open Sig (SignatureHeaders SignedRequest)
open Sfv (BareItem ListEntry)

def clockSkewDetail : String :=
  "agent token is issued ahead of this server's clock"

def createdAheadDetail : String :=
  "signature is created ahead of this server's clock"

def tokenAlg : String := Jwk.algorithm

def signatureWindowSecs : ℤ := 60

def maxAgentTokenLifetimeSecs : ℤ := 24 * 60 * 60

/-- The signer's own label, its `alg` unread, its `expires` honoured. -/
def profile : Profile :=
  { label := none, ignoreAlg := true, acceptExpires := true }

def agentTokenTyp : String := "aa-agent+jwt"

def requiredDwk : String := "aauth-agent.json"

def permittedHeaders : List String := ["alg", "kid", "typ"]

abbrev ProviderKey := Jose.NamedKey VerifyingKey

/-- The keys of each provider, by its exact identifier. -/
structure Config where
  providers : List (String × List ProviderKey)
  authority : String
  pep : List String

/-! ## Identifiers -/

def domainChar (c : Char) : Bool :=
  c.isLower || c.isDigit || c == '-'

def validDomain (host : List Char) : Bool :=
  !host.isEmpty && (host.splitOn '.').all fun label =>
    !label.isEmpty && label.all domainChar

/-- The host a provider's identifier names. -/
def providerHost (iss : String) : Option String :=
  match stripFront "https://".toList iss.toList with
  | some host => if validDomain host then some (String.ofList host) else none
  | none => none

def validProviderUrl (iss : String) : Bool :=
  (providerHost iss).isSome

def localChar (c : Char) : Bool :=
  c.isAlphanum || "-_+.".toList.contains c

/-- The domain of `aauth:local@domain`. -/
def agentIdentifierDomain (id : String) : Option String :=
  match (stripFront "aauth:".toList id.toList).bind (splitOnce '@') with
  | some parts =>
      let localOk := !parts.1.isEmpty &&
        decide ((String.ofList parts.1).utf8ByteSize ≤ 255) &&
        parts.1.all localChar
      if localOk && validDomain parts.2 then some (String.ofList parts.2)
      else none
  | none => none

variable (V : Verifier)

/-! ## The token -/

def isJwt (member : ListEntry) : Bool :=
  match member with
  | .item item => item.bareItem == .token "jwt"
  | .innerList _ => false

/-- The token under a label, where no other label carries a second one. -/
def tokenFromSignatureKey (raw label : String) : Except Denied String := do
  let members ← HttpSig.dictionary9651 V.codec raw "Signature-Key"
  if 1 < (members.filter fun member => isJwt member.2).length then
    .error (.invalid ("Signature-Key carries more than one jwt-scheme " ++
      "member; one signature is verified here"))
  else
    match members.lookup label with
    | none =>
        .error (.invalid
          s!"Signature-Key carries no member labelled {brief label}")
    | some (.innerList _) =>
        .error (.invalid "Signature-Key member is not a scheme")
    | some (.item item) =>
        match item.bareItem with
        | .token scheme =>
            if scheme ≠ "jwt" then
              .error (.invalid
                s!"Signature-Key scheme {brief scheme} is not jwt")
            else
              match item.params.lookup "jwt" with
              | some (.string token) =>
                  if token = "" then
                    .error (.invalid "Signature-Key carries an empty jwt")
                  else .ok token
              | some _ =>
                  .error (.invalid
                    "Signature-Key jwt parameter is not a string")
              | none =>
                  .error (.invalid "Signature-Key names no jwt parameter")
        | _ => .error (.invalid "Signature-Key scheme is not a token")

def checkHeader (head : Map) : Except Denied Unit := do
  match Jose.unknownName permittedHeaders head with
  | some unknown =>
      .error (.invalid (s!"JOSE header {brief unknown} is not permitted in " ++
        "an agent token"))
  | none => .ok ()
  Jose.requireName head "typ" agentTokenTyp "agent token names no typ"
    fun other => s!"token type {brief other} is not an agent token"
  Jose.requireName head "alg" tokenAlg "agent token names no algorithm"
    fun other => s!"algorithm {brief other} is not accepted here; " ++
      s!"this deployment verifies {tokenAlg} only"

def providerKey (issuer : String) (keys : List ProviderKey)
    (kid : Option String) : Except Denied ProviderKey :=
  Jose.selectKey keys kid
    (fun kid => s!"no key {brief kid} for provider {brief issuer}")
    "agent token names no kid and its provider has more than one key"

/-- A token whose signature a key of its issuer's verified. -/
structure Token where
  issuer : String
  claims : Map

def verifyToken (cfg : Config) (text : String) : Except Denied Token :=
  match Jose.split text with
  | none => .error (.invalid "agent token is not a compact JWS")
  | some parts =>
      if parts.2.2 = "" then
        .error (.invalid "agent token is not a compact JWS")
      else do
        let head ← Jose.decodeMap V parts.1 "agent token header"
        checkHeader head
        let claims ← Jose.decodeMap V parts.2.1 "agent token claims"
        match Jose.getStr claims "iss" with
        | none => .error (.invalid "agent token carries no iss")
        | some issuer =>
            match cfg.providers.lookup issuer with
            | none =>
                .error (.invalid
                  s!"agent provider {brief issuer} is not configured here")
            | some keys => do
                Jose.requireName claims "dwk" requiredDwk
                  "agent token carries no dwk"
                  fun other => s!"dwk {brief other} is not {requiredDwk}"
                let key ← providerKey issuer keys (Jose.getStr head "kid")
                match V.decodeUrl parts.2.2 with
                | none =>
                    .error (.invalid
                      "agent token signature is not base64url")
                | some bytes =>
                    match toSignature bytes with
                    | none =>
                        .error (.invalid
                          "agent token signature is malformed")
                    | some signature =>
                        if !V.verifyStrict key.key (ByteText.encode
                            (parts.1 ++ "." ++ parts.2.1)) signature then
                          .error (.invalid ("agent token does not verify " ++
                            "against its provider"))
                        else .ok { issuer, claims }

/-! ## What it claims -/

/-- The agent, in the domain of the provider that issued the token. -/
def tokenSubject (token : Token) : Except Denied String :=
  if Jose.getStr token.claims "iss" ≠ some token.issuer then
    .error (.invalid "verified iss is not the provider that verified it")
  else
    match Jose.getStr token.claims "sub" with
    | none => .error (.invalid "agent token carries no sub")
    | some subject =>
        match agentIdentifierDomain subject with
        | none =>
            .error (.invalid
              "sub is not an agent identifier (aauth:local@domain)")
        | some domain =>
            if some domain ≠ providerHost token.issuer then
              .error (.invalid ("agent identifier is not in the domain of " ++
                "the provider that issued the token"))
            else .ok subject

/-- The sum of an `i64` and the window, which wraps. -/
def windowEnd (now : ℤ) : ℤ :=
  Int.bmod (now + signatureWindowSecs) 18446744073709551616

def checkTimes (claims : Map) (now : ℤ) : Except Denied Unit := do
  let exp ← Jose.unexpired claims now "agent token"
  let iat ← Jose.requireDate claims "iat" "agent token"
  if rounded (windowEnd now) < iat then .error (.invalid clockSkewDetail)
  else if rounded maxAgentTokenLifetimeSecs < rounded (exp - iat) then
    .error (.invalid "agent token claims a lifetime above 24 hours")
  else Jose.begun claims now "agent token"

/-- A `ps` and a `parent_agent` are checked for their shape alone. -/
def checkPs (claims : Map) : Except Denied Unit :=
  match Jose.getStr claims "ps" with
  | some ps =>
      if validProviderUrl ps then .ok ()
      else .error (.invalid
        "ps is not a server identifier (https:// and a lowercase host)")
  | none => .ok ()

def checkParentAgent (claims : Map) : Except Denied Unit :=
  match claims.get "parent_agent" with
  | some parent =>
      if (parent.asStr.bind agentIdentifierDomain).isSome then .ok ()
      else .error (.invalid "parent_agent is not an agent identifier")
  | none => .ok ()

def readCnf {δ : Type} (source : Source δ) (tree : δ) :
    Except SerdeError Jwk := do
  let shape := source.shape tree
  expectStruct 1 shape
  required shape 0 "jwk" (Jwk.read source)

/-- The key a token's `cnf` confirms. -/
def confirmedKey (claims : Map) : Except Denied VerifyingKey :=
  match claims.get "cnf" with
  | none => .error (.invalid "agent token carries no cnf")
  | some cnf =>
      match readCnf valueSource cnf with
      | .error _ => .error (.invalid "cnf does not carry a jwk")
      | .ok jwk =>
          match jwk.ed25519 V with
          | .ok key => .ok key
          | .error e => .error (.invalid s!"cnf.jwk is not usable: {e}")

def requireJti (claims : Map) : Except Denied Unit :=
  match Jose.getStr claims "jti" with
  | some jti =>
      if jti = "" then .error (.invalid "agent token carries no jti")
      else .ok ()
  | none => .error (.invalid "agent token carries no jti")

/-- A token's agent and the key it confirms, at a clock. -/
def confirmed (token : Token) (now : ℤ) :
    Except Denied (String × VerifyingKey) := do
  let subject ← tokenSubject token
  requireJti token.claims
  checkTimes token.claims now
  checkPs token.claims
  checkParentAgent token.claims
  let key ← confirmedKey V token.claims
  .ok (subject, key)

/-! ## The request -/

def notAhead (p : Presented) (now : ℤ) : Except Denied Unit :=
  if signatureWindowSecs < HttpSig.saturatingSub p.created now then
    .error (.invalid createdAheadDetail)
  else .ok ()

def presented (req : SignedRequest) (headers : SignatureHeaders) (now : ℤ) :
    Except Denied Presented := do
  let p ← HttpSig.presentedUnder V.codec profile headers.input
    headers.signature
  p.covers (Sig.requiredComponents req.method req.body)
  notAhead p now
  p.fresh now signatureWindowSecs signatureWindowSecs
  p.unexpired now
  .ok p

/-- The further header fields a signature covers. -/
def extraFields (headers : List (String × Bytes)) :
    List String → Except Denied (List (String × String))
  | [] => .ok []
  | name :: rest =>
      if name.toList.head? = some '@' ∨ name = "signature-key" ∨
          name = "content-digest" then extraFields headers rest
      else do
        match ← HttpSig.field headers name with
        | none =>
            .error (.invalid
              s!"covered field {brief name} is not in the request")
        | some value => do
            let fields ← extraFields headers rest
            .ok ((name, value) :: fields)

/-- An agent speaks for itself unless it is named otherwise. -/
def Config.caller (cfg : Config) (subject issuer : String) : Authenticated :=
  let who := Authenticated.new subject subject issuer
  if cfg.pep.contains subject then who else who.selfOnly

def authenticateWith (req : SignedRequest) (headersIn : List (String × Bytes))
    (cfg : Config) (now : ℤ) : Except Denied Authenticated :=
  if cfg.providers.isEmpty then
    .error (.invalid "no agent providers are configured")
  else do
    let headers ← req.signatureHeaders
    req.sentTo cfg.authority
    let p ← presented V req headers now
    let text ← tokenFromSignatureKey V headers.key p.label
    let token ← verifyToken V cfg text
    let agent ← confirmed V token now
    let extra ← extraFields headersIn p.components
    let base ← req.signatureBaseWith V headers.key p extra
    match toSignature p.signature with
    | none => .error (.invalid "signature is malformed")
    | some signature =>
        if !V.verifyStrict agent.2 (ByteText.encode base) signature then
          .error (.invalid ("signature does not verify against the " ++
            "token's confirmed key"))
        else .ok (cfg.caller agent.1 token.issuer)

/-- The caller of a request; the clock is cast to `i64`. -/
def Config.authenticate (cfg : Config) (req : Request) (now : UInt64)
    (body : Bytes) : Except Denied Authenticated := do
  let fields ← Sig.fromRequest V req body
  authenticateWith V fields req.headers cfg now.toInt64.toInt

end Decern.Aauth
