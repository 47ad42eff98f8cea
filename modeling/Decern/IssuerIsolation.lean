import Decern.RequestBinding
import Decern.SpiffeIds
import Mathlib.Tactic

/-!
# Issuers vouch for their own

A key is chosen by claims that nothing has checked yet, and what it verifies
holds the same claims.  So a token that is accepted is signed by a key
configured for the domain its subject is in, whatever other issuers sign.
-/

namespace Decern

open ByteText (Bytes)
open Decide (Authenticated)
open FiniteDouble (rounded)
open HttpSig (Draws Message Presented)
open Serde (Map Value bind_eq_ok)
open Sig (SignatureHeaders SignedRequest)

/-! ## Text -/

theorem stripFront_eq_some {front text rest : List Char}
    (hstrip : stripFront front text = some rest) : text = front ++ rest := by
  unfold stripFront at hstrip
  split at hstrip
  · have hfront : front <+: text := by
      rw [← List.isPrefixOf_iff_prefix]
      assumption
    rcases hfront with ⟨tail, htail⟩
    rw [← Option.some.inj hstrip, ← htail, List.drop_left]
  · cases hstrip

/-- A provider's identifier is its host and nothing more. -/
theorem Aauth.providerHost_eq_some {iss host : String}
    (hhost : Aauth.providerHost iss = some host) :
    iss = "https://" ++ host := by
  unfold Aauth.providerHost at hhost
  cases hstrip : stripFront "https://".toList iss.toList with
  | none =>
      simp only [hstrip] at hhost
      cases hhost
  | some rest =>
      simp only [hstrip] at hhost
      split at hhost
      · rw [← Option.some.inj hhost]
        apply String.toList_inj.mp
        simp only [stripFront_eq_some hstrip, String.toList_append,
          String.toList_ofList]
      · cases hhost

/-! ## Claims -/

namespace Jose

/-- The expiry is ahead of the clock and the beginning, where there is one, is
not, both read as the nearest doubles. -/
structure InsideValidity (claims : Map) (now : ℤ) : Prop where
  expiry : ∃ exp, (claims.get "exp").bind Value.asF64 = some exp ∧
    rounded now < exp
  beginning : ∀ value, claims.get "nbf" = some value →
    ∃ nbf, value.asF64 = some nbf ∧ nbf ≤ rounded now

theorem numericDate_eq_ok {claims : Map} {name what : String}
    {date : Option ℚ}
    (hdate : orInvalid (numericDate claims name what) = .ok date) :
    (∀ value, claims.get name = some value →
      ∃ seconds, value.asF64 = some seconds ∧ date = some seconds) ∧
        (claims.get name).bind Value.asF64 = date := by
  unfold numericDate at hdate
  cases hget : claims.get name with
  | none =>
      simp only [hget] at hdate
      cases hdate
      exact ⟨fun _ hvalue => absurd hvalue (by simp), rfl⟩
  | some value =>
      cases hseconds : value.asF64 with
      | none =>
          simp only [hget, hseconds] at hdate
          cases hdate
      | some seconds =>
          simp only [hget, hseconds] at hdate
          cases hdate
          refine ⟨?_, hseconds⟩
          intro other hother
          rw [← Option.some.inj hother]
          exact ⟨seconds, hseconds, rfl⟩

theorem unexpired_eq_ok {claims : Map} {now : ℤ} {what : String} {exp : ℚ}
    (hexp : unexpired claims now what = .ok exp) :
    (claims.get "exp").bind Value.asF64 = some exp ∧ rounded now < exp := by
  unfold unexpired at hexp
  rcases bind_eq_ok.mp hexp with ⟨seconds, hdate, hexp⟩
  split at hexp
  · cases hexp
  · rename_i hlater
    cases hexp
    unfold requireDate at hdate
    rcases bind_eq_ok.mp hdate with ⟨date, hread, hdate⟩
    cases date with
    | none => cases hdate
    | some seconds =>
        cases hdate
        exact ⟨(numericDate_eq_ok hread).2, not_le.mp hlater⟩

theorem begun_eq_ok {claims : Map} {now : ℤ} {what : String}
    (hbegun : begun claims now what = .ok ()) (value : Value)
    (hvalue : claims.get "nbf" = some value) :
    ∃ nbf, value.asF64 = some nbf ∧ nbf ≤ rounded now := by
  unfold begun at hbegun
  rcases bind_eq_ok.mp hbegun with ⟨date, hread, hbegun⟩
  rcases (numericDate_eq_ok hread).1 value hvalue with
    ⟨seconds, hseconds, hdate⟩
  subst hdate
  dsimp only at hbegun
  split at hbegun
  · cases hbegun
  · rename_i hnot
    exact ⟨seconds, hseconds, not_lt.mp hnot⟩

theorem selectKey_mem {κ : Type} {keys : List (NamedKey κ)}
    {kid : Option String} {unknown : String → String} {ambiguous : String}
    {key : NamedKey κ}
    (hkey : selectKey keys kid unknown ambiguous = .ok key) :
    key ∈ keys := by
  unfold selectKey at hkey
  cases kid with
  | some kid =>
      cases hfind : keys.find? fun key => key.kid == kid with
      | none =>
          simp only [hfind] at hkey
          cases hkey
      | some found =>
          simp only [hfind] at hkey
          cases hkey
          exact List.mem_of_find?_eq_some hfind
  | none =>
      dsimp only at hkey
      split at hkey
      · cases hkey
        exact List.mem_singleton_self _
      · cases hkey

end Jose

variable {V : Verifier}

/-! ## Providers -/

namespace Aauth

/-- A text that is a token signed by a key of the subject's own provider. -/
structure Vouched (V : Verifier) (Signed : VerifyingKey → Bytes → Prop)
    (cfg : Config) (text subject : String) (claims : Map) : Prop where
  provider : ∃ domain keys key parts,
    agentIdentifierDomain subject = some domain ∧
      cfg.providers.lookup ("https://" ++ domain) = some keys ∧
      key ∈ keys ∧ Jose.split text = some parts ∧
      Signed key.key (ByteText.encode (parts.1 ++ "." ++ parts.2.1)) ∧
      Jose.decodeMap V parts.2.1 "agent token claims" = .ok claims
  subject : Jose.getStr claims "sub" = some subject

/-- The steps of `verifyToken` that succeed. -/
theorem verifyToken_eq_ok {cfg : Config} {text : String} {token : Token}
    (hok : verifyToken V cfg text = .ok token) :
    ∃ keys key parts signature,
      cfg.providers.lookup token.issuer = some keys ∧ key ∈ keys ∧
        Jose.split text = some parts ∧
        Jose.decodeMap V parts.2.1 "agent token claims" = .ok token.claims ∧
        V.verifyStrict key.key
          (ByteText.encode (parts.1 ++ "." ++ parts.2.1)) signature =
            true := by
  unfold verifyToken at hok
  cases hparts : Jose.split text with
  | none =>
      simp only [hparts] at hok
      cases hok
  | some parts =>
      simp only [hparts] at hok
      split at hok
      · cases hok
      · rcases bind_eq_ok.mp hok with ⟨head, _, hok⟩
        rcases bind_eq_ok.mp hok with ⟨_, _, hok⟩
        rcases bind_eq_ok.mp hok with ⟨claims, hclaims, hok⟩
        cases hissuer : Jose.getStr claims "iss" with
        | none =>
            simp only [hissuer] at hok
            cases hok
        | some issuer =>
            cases hkeys : cfg.providers.lookup issuer with
            | none =>
                simp only [hissuer, hkeys] at hok
                cases hok
            | some keys =>
                simp only [hissuer, hkeys] at hok
                rcases bind_eq_ok.mp hok with ⟨_, _, hok⟩
                rcases bind_eq_ok.mp hok with ⟨key, hkey, hok⟩
                cases hbytes : V.decodeUrl parts.2.2 with
                | none =>
                    simp only [hbytes] at hok
                    cases hok
                | some bytes =>
                    cases hsignature : toSignature bytes with
                    | none =>
                        simp only [hbytes, hsignature] at hok
                        cases hok
                    | some signature =>
                        simp only [hbytes, hsignature] at hok
                        split at hok
                        · cases hok
                        · rename_i hverify
                          cases hok
                          exact ⟨keys, key, parts, signature, hkeys,
                            Jose.selectKey_mem hkey, rfl, hclaims,
                            by simpa using hverify⟩

theorem tokenSubject_eq_ok {token : Token} {subject : String}
    (hok : tokenSubject token = .ok subject) :
    Jose.getStr token.claims "sub" = some subject ∧
      ∃ domain, agentIdentifierDomain subject = some domain ∧
        token.issuer = "https://" ++ domain := by
  unfold tokenSubject at hok
  split at hok
  · cases hok
  · cases hsub : Jose.getStr token.claims "sub" with
    | none =>
        simp only [hsub] at hok
        cases hok
    | some other =>
        cases hdomain : agentIdentifierDomain other with
        | none =>
            simp only [hsub, hdomain] at hok
            cases hok
        | some domain =>
            simp only [hsub, hdomain] at hok
            by_cases hhost : some domain = providerHost token.issuer
            · rw [if_neg (not_not.mpr hhost)] at hok
              cases hok
              exact ⟨rfl, domain, hdomain,
                providerHost_eq_some hhost.symm⟩
            · rw [if_pos hhost] at hok
              cases hok

theorem checkTimes_eq_ok {claims : Map} {now : ℤ}
    (hok : checkTimes claims now = .ok ()) :
    Jose.InsideValidity claims now := by
  unfold checkTimes at hok
  rcases bind_eq_ok.mp hok with ⟨exp, hexp, hok⟩
  rcases bind_eq_ok.mp hok with ⟨iat, _, hok⟩
  split at hok
  · cases hok
  · split at hok
    · cases hok
    · exact ⟨⟨exp, Jose.unexpired_eq_ok hexp⟩, Jose.begun_eq_ok hok⟩

theorem confirmed_eq_ok {token : Token} {now : ℤ}
    {agent : String × VerifyingKey}
    (hok : confirmed V token now = .ok agent) :
    tokenSubject token = .ok agent.1 ∧
      Jose.InsideValidity token.claims now ∧
      confirmedKey V token.claims = .ok agent.2 := by
  unfold confirmed at hok
  rcases bind_eq_ok.mp hok with ⟨subject, hsubject, hok⟩
  rcases bind_eq_ok.mp hok with ⟨_, _, hok⟩
  rcases bind_eq_ok.mp hok with ⟨_, htimes, hok⟩
  rcases bind_eq_ok.mp hok with ⟨_, _, hok⟩
  rcases bind_eq_ok.mp hok with ⟨_, _, hok⟩
  rcases bind_eq_ok.mp hok with ⟨key, hkey, hok⟩
  cases hok
  exact ⟨hsubject, checkTimes_eq_ok htimes, hkey⟩

theorem covers_eq_ok {p : Presented} {required : List String}
    (hok : p.covers required = .ok ()) : required ⊆ p.components := by
  unfold HttpSig.Presented.covers at hok
  cases hmissing : required.find? fun name => !p.components.contains name with
  | some missing =>
      simp only [hmissing] at hok
      cases hok
  | none =>
      intro name hname
      have hnone := List.find?_eq_none.mp hmissing name hname
      simpa using hnone

theorem presented_eq_ok {req : SignedRequest} {headers : SignatureHeaders}
    {now : ℤ} {p : Presented}
    (hok : presented V req headers now = .ok p) :
    HttpSig.presentedUnder V.codec profile headers.input headers.signature =
        .ok p ∧
      Sig.requiredComponents req.method req.body ⊆ p.components := by
  unfold presented at hok
  rcases bind_eq_ok.mp hok with ⟨p', hp, hok⟩
  rcases bind_eq_ok.mp hok with ⟨_, hcovers, hok⟩
  rcases bind_eq_ok.mp hok with ⟨_, _, hok⟩
  rcases bind_eq_ok.mp hok with ⟨_, _, hok⟩
  rcases bind_eq_ok.mp hok with ⟨_, _, hok⟩
  cases hok
  exact ⟨hp, covers_eq_ok hcovers⟩

/-! ## What the confirmed key signs -/

/-- A key signed a base with a line for each part of a request. -/
structure OverRequest (V : Verifier)
    (Signed : VerifyingKey → Bytes → Prop) (req : SignedRequest)
    (authority signatureKey : String) (p : Presented)
    (key : VerifyingKey) (components : List (String × String)) : Prop where
  names : components.map Prod.fst = p.components
  signed : ∃ base, Signed key (ByteText.encode base) ∧
    base.toList = HttpSig.baseText components p.params.toList
  method : ("@method", req.method) ∈ components
  path : ("@path", req.path) ∈ components
  authority : ("@authority", lowerAscii authority) ∈ components
  signatureKey : ("signature-key", signatureKey) ∈ components
  digest : req.body ≠ [] ∨ eqIgnoreAsciiCase req.method "POST" = true →
    ∃ raw, ("content-digest", raw) ∈ components ∧
      Sig.parseSha256ContentDigest V raw = .ok (V.sha256 req.body)

theorem mem_of_draws {m : Message} {names : List String}
    {components : List (String × String)}
    (hdraws : Draws m names components) {name : String}
    (hname : name ∈ names) :
    ∃ value, (name, value) ∈ components ∧ m.value name = .ok value := by
  rw [← hdraws.names] at hname
  rcases List.mem_map.mp hname with ⟨component, hmem, rfl⟩
  exact ⟨component.2, hmem, hdraws.values component hmem⟩

theorem digest_required {method : String} {body : Bytes}
    (hbodied : body ≠ [] ∨ eqIgnoreAsciiCase method "POST" = true) :
    "content-digest" ∈ Sig.requiredComponents method body := by
  rcases hbodied with hbody | hpost
  · exact Sig.digest_required hbody
  · rw [Sig.requiredComponents, hpost, Bool.true_or, if_pos rfl]
    decide

theorem overRequest {Signed : VerifyingKey → Bytes → Prop}
    {req : SignedRequest} {authority signatureKey base : String}
    {p : Presented} {key : VerifyingKey} {fields : List (String × String)}
    (hsent : eqIgnoreAsciiCase req.authority authority = true)
    (hcovers : Sig.requiredComponents req.method req.body ⊆ p.components)
    (hfields : Sig.Coverable V req signatureKey p fields)
    (hbase : HttpSig.signatureBase (req.message fields) p = .ok base)
    (hsigned : Signed key (ByteText.encode base)) :
    ∃ components, OverRequest V Signed req authority signatureKey p key
      components := by
  rcases HttpSig.signatureBase_eq_ok hbase with ⟨components, hdraws, htext⟩
  have hline : ∀ name, name ∈ Sig.unbodiedComponents → ∃ value,
      (name, value) ∈ components ∧
        (req.message fields).value name = .ok value := by
    intro name hname
    apply mem_of_draws hdraws
    apply hcovers
    exact Sig.requestLine_required _ _ hname
  rcases hline "@method" (by decide) with ⟨method, hmethod, hm⟩
  rcases hline "@path" (by decide) with ⟨path, hpath, hp⟩
  rcases hline "@authority" (by decide) with ⟨host, hhost, ha⟩
  rcases hline "signature-key" (by decide) with ⟨raw, hraw, hk⟩
  have hauthority : lowerAscii req.authority = lowerAscii authority := by
    simpa [eqIgnoreAsciiCase] using hsent
  have hkey : signatureKey = raw := by
    have hlookup := Sig.value_field (by decide) hk
    exact Option.some.inj (hfields.signatureKey.symm.trans hlookup)
  refine ⟨components, hdraws.names, ⟨base, hsigned, htext⟩, ?_, ?_, ?_, ?_,
    ?_⟩
  · rw [← Sig.value_method hm] at hmethod
    exact hmethod
  · rw [← Sig.value_path hp] at hpath
    exact hpath
  · rw [← Sig.value_authority ha] at hhost
    rw [← hauthority]
    exact hhost
  · rw [hkey]
    exact hraw
  · intro hbodied
    have hdigest := hcovers (digest_required hbodied)
    rcases hfields.digest hdigest with ⟨text, hlookup, _, hparse⟩
    rcases mem_of_draws hdraws hdigest with ⟨value, hmem, hvalue⟩
    have hsame : text = value := by
      have hfound := Sig.value_field (by decide) hvalue
      exact Option.some.inj (hlookup.symm.trans hfound)
    exact ⟨value, hmem, hsame ▸ hparse⟩

/-- An ideal signature: what verifies was signed. -/
def Ideal (V : Verifier) (Signed : VerifyingKey → Bytes → Prop) : Prop :=
  ∀ key message signature,
    V.verifyStrict key message signature = true → Signed key message

@[simp] theorem caller_subject (cfg : Config) (subject issuer : String) :
    (cfg.caller subject issuer).subject = subject := by
  unfold Config.caller
  dsimp only
  split <;> rfl

/-- What an accepted request carried, and who signed what. -/
structure Accepted (V : Verifier) (Signed : VerifyingKey → Bytes → Prop)
    (cfg : Config) (req : SignedRequest) (now : ℤ) (subject : String) :
    Prop where
  evidence : ∃ headers p text claims key components,
    req.signatureHeaders = .ok headers ∧
      HttpSig.presentedUnder V.codec profile headers.input
        headers.signature = .ok p ∧
      tokenFromSignatureKey V headers.key p.label = .ok text ∧
      Vouched V Signed cfg text subject claims ∧
      Jose.InsideValidity claims now ∧
      confirmedKey V claims = .ok key ∧
      OverRequest V Signed req cfg.authority headers.key p key components

theorem authenticateWith_eq_ok {Signed : VerifyingKey → Bytes → Prop}
    (hideal : Ideal V Signed) {cfg : Config} {req : SignedRequest}
    {headersIn : List (String × Bytes)} {now : ℤ} {who : Authenticated}
    (hok : authenticateWith V req headersIn cfg now = .ok who) :
    Accepted V Signed cfg req now who.subject := by
  unfold authenticateWith at hok
  split at hok
  · cases hok
  · rcases bind_eq_ok.mp hok with ⟨headers, hheaders, hok⟩
    rcases bind_eq_ok.mp hok with ⟨_, hsent, hok⟩
    rcases bind_eq_ok.mp hok with ⟨p, hp, hok⟩
    rcases bind_eq_ok.mp hok with ⟨text, htext, hok⟩
    rcases bind_eq_ok.mp hok with ⟨token, htoken, hok⟩
    rcases bind_eq_ok.mp hok with ⟨agent, hagent, hok⟩
    rcases bind_eq_ok.mp hok with ⟨extra, _, hok⟩
    rcases bind_eq_ok.mp hok with ⟨base, hbase, hok⟩
    rcases bind_eq_ok.mp hbase with ⟨fields, hfields, hbase⟩
    cases hbytes : toSignature p.signature with
    | none =>
        simp only [hbytes] at hok
        cases hok
    | some signature =>
        simp only [hbytes] at hok
        by_cases hverify : V.verifyStrict agent.2 (ByteText.encode base)
            signature = true
        · rw [hverify] at hok
          cases hok
          rw [caller_subject]
          have hsame : eqIgnoreAsciiCase req.authority cfg.authority =
              true := by
            unfold SignedRequest.sentTo at hsent
            split at hsent
            · assumption
            · cases hsent
          rcases presented_eq_ok hp with ⟨hread, hcovers⟩
          rcases verifyToken_eq_ok htoken with
            ⟨keys, key, parts, tokenSignature, hkeys, hkey, hparts, hclaims,
              hsigned⟩
          rcases confirmed_eq_ok hagent with ⟨hsubject, htimes, hconfirmed⟩
          rcases tokenSubject_eq_ok hsubject with
            ⟨hsub, domain, hdomain, hissuer⟩
          rcases overRequest hsame hcovers (Sig.coverable_eq_ok hfields) hbase
            (hideal _ _ _ hverify) with ⟨components, hover⟩
          rw [hissuer] at hkeys
          exact ⟨headers, p, text, token.claims, agent.2, components,
            hheaders, hread, htext,
            ⟨⟨domain, keys, key, parts, hdomain, hkeys, hkey, hparts,
              hideal _ _ _ hsigned, hclaims⟩, hsub⟩,
            htimes, hconfirmed, hover⟩
        · rw [Bool.not_eq_true] at hverify
          rw [hverify] at hok
          cases hok

theorem Config.authenticate_eq_ok {Signed : VerifyingKey → Bytes → Prop}
    (hideal : Ideal V Signed) {cfg : Config} {req : Request} {now : UInt64}
    {body : Bytes} {who : Authenticated}
    (hok : cfg.authenticate V req now body = .ok who) :
    ∃ fields, Sig.fromRequest V req body = .ok fields ∧
      Accepted V Signed cfg fields now.toInt64.toInt who.subject := by
  rcases bind_eq_ok.mp hok with ⟨fields, hfields, hwith⟩
  exact ⟨fields, hfields, authenticateWith_eq_ok hideal hwith⟩

end Aauth

/-! ## Trust domains -/

namespace Spiffe

variable {P : P256}

/-- A text that is a token signed by a key of the subject's trust domain. -/
structure Vouched (V : Verifier) (Signed : PointKey → Bytes → Prop)
    (cfg : Config) (text subject domain : String) (claims : Map) :
    Prop where
  trustDomain : trustDomainOf subject = some domain
  signed : ∃ bundle key parts,
    cfg.trustDomains.lookup domain = some bundle ∧ key ∈ bundle ∧
      Jose.split text = some parts ∧
      Signed key.key (ByteText.encode (parts.1 ++ "." ++ parts.2.1)) ∧
      Jose.decodeMap V parts.2.1 "token claims" = .ok claims
  subject : Jose.getStr claims "sub" = some subject

/-- An ideal signature: what verifies was signed. -/
def Ideal (P : P256) (Signed : PointKey → Bytes → Prop) : Prop :=
  ∀ key message signature,
    P.verify key message signature = true → Signed key message

theorem verifyToken_eq_ok {Signed : PointKey → Bytes → Prop}
    (hideal : Ideal P Signed) {cfg : Config} {text : String} {token : Token}
    (hok : verifyToken V P cfg text = .ok token) :
    Vouched V Signed cfg text token.subject token.domain token.claims := by
  unfold verifyToken at hok
  cases hparts : Jose.split text with
  | none =>
      simp only [hparts] at hok
      cases hok
  | some parts =>
      simp only [hparts] at hok
      split at hok
      · cases hok
      · rcases bind_eq_ok.mp hok with ⟨head, _, hok⟩
        rcases bind_eq_ok.mp hok with ⟨_, _, hok⟩
        rcases bind_eq_ok.mp hok with ⟨claims, hclaims, hok⟩
        cases hsub : Jose.getStr claims "sub" with
        | none =>
            simp only [hsub] at hok
            cases hok
        | some subject =>
            cases hdomain : trustDomainOf subject with
            | none =>
                simp only [hsub, hdomain] at hok
                cases hok
            | some domain =>
                cases hbundle : cfg.trustDomains.lookup domain with
                | none =>
                    simp only [hsub, hdomain, hbundle] at hok
                    cases hok
                | some bundle =>
                    simp only [hsub, hdomain, hbundle] at hok
                    rcases bind_eq_ok.mp hok with ⟨key, hkey, hok⟩
                    cases hbytes : V.decodeUrl parts.2.2 with
                    | none =>
                        simp only [hbytes] at hok
                        cases hok
                    | some bytes =>
                        cases hsignature : P.fromSlice bytes with
                        | none =>
                            simp only [hbytes, hsignature] at hok
                            cases hok
                        | some signature =>
                            simp only [hbytes, hsignature] at hok
                            split at hok
                            · cases hok
                            · rename_i hverify
                              cases hok
                              exact ⟨hdomain, ⟨bundle, key, parts, hbundle,
                                Jose.selectKey_mem hkey, hparts,
                                hideal _ _ _ (by simpa using hverify),
                                hclaims⟩, hsub⟩

@[simp] theorem caller_subject (cfg : Config) (subject domain : String) :
    (cfg.caller subject domain).subject = subject := by
  unfold Config.caller
  dsimp only
  split <;> rfl

theorem authenticate_eq_ok {Signed : PointKey → Bytes → Prop}
    (hideal : Ideal P Signed) {cfg : Config} {header : Option String}
    {now : UInt64} {who : Authenticated}
    (hok : authenticate V P header cfg now = .ok who) :
    ∃ raw text domain claims, header = some raw ∧ bearer raw = .ok text ∧
      Vouched V Signed cfg text who.subject domain claims ∧
      Jose.audienceContains (claims.get "aud") cfg.audience = true ∧
      Jose.InsideValidity claims now.toNat := by
  unfold authenticate at hok
  split at hok
  · cases hok
  · cases header with
    | none => cases hok
    | some raw =>
        dsimp only at hok
        rcases bind_eq_ok.mp hok with ⟨text, htext, hok⟩
        split at hok
        · cases hok
        · rcases bind_eq_ok.mp hok with ⟨token, htoken, hok⟩
          split at hok
          · cases hok
          · split at hok
            · cases hok
            · rename_i haudience
              rcases bind_eq_ok.mp hok with ⟨exp, hexp, hok⟩
              rcases bind_eq_ok.mp hok with ⟨_, hbegun, hok⟩
              cases hok
              rw [caller_subject]
              exact ⟨raw, text, token.domain, token.claims, rfl, htext,
                verifyToken_eq_ok hideal htoken, by simpa using haudience,
                ⟨exp, Jose.unexpired_eq_ok hexp⟩, Jose.begun_eq_ok hbegun⟩

/-- The token is in the first `Authorization` header. -/
theorem Config.authenticate_eq_ok {Signed : PointKey → Bytes → Prop}
    (hideal : Ideal P Signed) {cfg : Config} {req : Request} {now : UInt64}
    {who : Authenticated} (hok : cfg.authenticate V P req now = .ok who) :
    ∃ line raw text domain claims,
      (headerLines req.headers "authorization").head? = some line ∧
      toStr line = some raw ∧ bearer raw = .ok text ∧
      Vouched V Signed cfg text who.subject domain claims ∧
      Jose.audienceContains (claims.get "aud") cfg.audience = true ∧
      Jose.InsideValidity claims now.toNat := by
  rcases Spiffe.authenticate_eq_ok hideal hok with
    ⟨raw, text, domain, claims, hheader, htext, hvouched⟩
  rcases Option.bind_eq_some_iff.mp hheader with ⟨line, hline, hraw⟩
  exact ⟨line, raw, text, domain, claims, hline, hraw, htext, hvouched⟩

end Spiffe

/-! ## What is accepted -/

section Accepted

variable {V : Verifier}

theorem Aauth.verifyToken_of_claims {cfg : Aauth.Config}
    {text issuer : String} {parts : String × String × String}
    {head claims : Map} {keys : List Aauth.ProviderKey}
    {key : Aauth.ProviderKey} {bytes : Bytes} {signature : Signature}
    (hparts : Jose.split text = some parts) (hsome : parts.2.2 ≠ "")
    (hhead : Jose.decodeMap V parts.1 "agent token header" = .ok head)
    (hchecked : Aauth.checkHeader head = .ok ())
    (hclaims : Jose.decodeMap V parts.2.1 "agent token claims" = .ok claims)
    (hiss : Jose.getStr claims "iss" = some issuer)
    (hkeys : cfg.providers.lookup issuer = some keys)
    (hdwk : Jose.getStr claims "dwk" = some Aauth.requiredDwk)
    (hkey : Aauth.providerKey issuer keys (Jose.getStr head "kid") =
      .ok key)
    (hbytes : V.decodeUrl parts.2.2 = some bytes)
    (hsignature : toSignature bytes = some signature)
    (hverify : V.verifyStrict key.key
      (ByteText.encode (parts.1 ++ "." ++ parts.2.1)) signature = true) :
    Aauth.verifyToken V cfg text = .ok { issuer, claims } := by
  rw [Aauth.verifyToken, hparts]
  simp only [if_neg hsome, hhead, hchecked, hclaims, hiss, hkeys,
    Jose.requireName, hdwk, hkey, hbytes, hsignature, hverify, bind,
    Except.bind, if_true, Bool.not_true, Bool.false_eq_true, if_false]

theorem Aauth.confirmed_of_claims {token : Aauth.Token} {now : ℤ}
    {subject jti : String} {key : VerifyingKey}
    (hsubject : Aauth.tokenSubject token = .ok subject)
    (hjti : Jose.getStr token.claims "jti" = some jti) (hsome : jti ≠ "")
    (htimes : Aauth.checkTimes token.claims now = .ok ())
    (hps : token.claims.get "ps" = none)
    (hparent : token.claims.get "parent_agent" = none)
    (hkey : Aauth.confirmedKey V token.claims = .ok key) :
    Aauth.confirmed V token now = .ok (subject, key) := by
  have hno : Jose.getStr token.claims "ps" = none := by
    rw [Jose.getStr, hps]
    rfl
  simp only [Aauth.confirmed, hsubject, Aauth.requireJti, hjti,
    if_neg hsome, htimes, Aauth.checkPs, hno, Aauth.checkParentAgent,
    hparent, hkey, bind, Except.bind]

theorem Aauth.tokenFromSignatureKey_of_member {raw label token : String}
    (hmembers : HttpSig.dictionary9651 V.codec raw "Signature-Key" =
      .ok [(label, .item ⟨.token "jwt", [("jwt", .string token)]⟩)])
    (hsome : token ≠ "") :
    Aauth.tokenFromSignatureKey V raw label = .ok token := by
  rw [Aauth.tokenFromSignatureKey, hmembers]
  simp [bind, Except.bind, Aauth.isJwt, hsome]

/-- The base of a request without a body. -/
theorem Aauth.signatureBaseWith_of_unbodied {req : SignedRequest}
    {signatureKey base : String} {p : Presented}
    {extra : List (String × String)}
    (hunbodied : ¬ p.components.contains "content-digest" = true)
    (hbase : HttpSig.signatureBase
      (req.message (("signature-key", signatureKey) :: extra)) p =
        .ok base) :
    req.signatureBaseWith V signatureKey p extra = .ok base := by
  rw [SignedRequest.signatureBaseWith, SignedRequest.coverable,
    if_neg hunbodied]
  exact hbase

theorem Aauth.authenticateWith_of_verified {req : SignedRequest}
    {headersIn : List (String × Bytes)} {cfg : Aauth.Config} {now : ℤ}
    {headers : SignatureHeaders} {p : Presented} {text base : String}
    {token : Aauth.Token} {agent : String × VerifyingKey}
    {extra : List (String × String)} {signature : Signature}
    (hproviders : cfg.providers ≠ [])
    (hheaders : req.signatureHeaders = .ok headers)
    (hsent : eqIgnoreAsciiCase req.authority cfg.authority = true)
    (hp : Aauth.presented V req headers now = .ok p)
    (htext : Aauth.tokenFromSignatureKey V headers.key p.label = .ok text)
    (htoken : Aauth.verifyToken V cfg text = .ok token)
    (hagent : Aauth.confirmed V token now = .ok agent)
    (hextra : Aauth.extraFields headersIn p.components = .ok extra)
    (hbase : req.signatureBaseWith V headers.key p extra = .ok base)
    (hbytes : toSignature p.signature = some signature)
    (hverify : V.verifyStrict agent.2 (ByteText.encode base) signature =
      true) :
    Aauth.authenticateWith V req headersIn cfg now =
      .ok (cfg.caller agent.1 token.issuer) := by
  have hsome : ¬ cfg.providers.isEmpty = true := by
    rwa [List.isEmpty_iff]
  rw [Aauth.authenticateWith, if_neg hsome]
  simp only [hheaders, SignedRequest.sentTo, hsent, hp, htext, htoken,
    hagent, hextra, hbase, hbytes, hverify, bind, Except.bind]
  rfl

theorem Spiffe.verifyToken_of_claims {P : Spiffe.P256}
    {cfg : Spiffe.Config} {text subject domain : String}
    {parts : String × String × String} {head claims : Map}
    {bundle : List Spiffe.BundleKey} {key : Spiffe.BundleKey}
    {bytes : Bytes} {signature : Signature}
    (hparts : Jose.split text = some parts) (hsome : parts.2.2 ≠ "")
    (hhead : Jose.decodeMap V parts.1 "token header" = .ok head)
    (hchecked : Spiffe.checkHeader head = .ok ())
    (hclaims : Jose.decodeMap V parts.2.1 "token claims" = .ok claims)
    (hsub : Jose.getStr claims "sub" = some subject)
    (hdomain : Spiffe.trustDomainOf subject = some domain)
    (hbundle : cfg.trustDomains.lookup domain = some bundle)
    (hkey : Spiffe.bundleKey domain bundle (Jose.getStr head "kid") =
      .ok key)
    (hbytes : V.decodeUrl parts.2.2 = some bytes)
    (hsignature : P.fromSlice bytes = some signature)
    (hverify : P.verify key.key
      (ByteText.encode (parts.1 ++ "." ++ parts.2.1)) signature = true) :
    Spiffe.verifyToken V P cfg text = .ok { subject, domain, claims } := by
  rw [Spiffe.verifyToken, hparts]
  simp only [if_neg hsome, hhead, hchecked, hclaims, hsub, hdomain, hbundle,
    hkey, hbytes, hsignature, hverify, bind, Except.bind, Bool.not_true,
    Bool.false_eq_true, if_false]

theorem Spiffe.authenticate_of_verified {P : Spiffe.P256}
    {cfg : Spiffe.Config} {raw text : String} {now : UInt64}
    {token : Spiffe.Token} {exp : ℚ} (hdomains : cfg.trustDomains ≠ [])
    (htext : Spiffe.bearer raw = .ok text)
    (hsize : text.utf8ByteSize ≤ Spiffe.maxTokenBytes)
    (htoken : Spiffe.verifyToken V P cfg text = .ok token)
    (hdomain : Spiffe.trustDomainOf token.subject = some token.domain)
    (haud : Jose.audienceContains (token.claims.get "aud") cfg.audience =
      true)
    (hexp : Jose.unexpired token.claims now.toNat "token" = .ok exp)
    (hbegun : Jose.begun token.claims now.toNat "token" = .ok ()) :
    Spiffe.authenticate V P (some raw) cfg now =
      .ok (cfg.caller token.subject token.domain) := by
  have hsome : ¬ cfg.trustDomains.isEmpty = true := by
    rwa [List.isEmpty_iff]
  rw [Spiffe.authenticate, if_neg hsome]
  simp only [htext, if_neg (not_lt.mpr hsize), htoken, hdomain, haud, hexp,
    hbegun, bind, Except.bind, if_neg (not_not.mpr rfl), Bool.not_true,
    Bool.false_eq_true, if_false]

/-- A date that is a small natural number is that number. -/
theorem Jose.numericDate_of_natural {claims : Map} {name what : String}
    {seconds : UInt64}
    (hget : claims.get name = some (.number (.posInt seconds)))
    (hsmall : seconds.toNat < 2 ^ 53) :
    Jose.numericDate claims name what = .ok (some (seconds.toNat : ℚ)) := by
  have hexact : rounded ((seconds.toNat : ℤ) : ℚ) = (seconds.toNat : ℤ) := by
    apply FiniteDouble.rounded_intCast
    rw [Nat.abs_cast]
    exact_mod_cast hsmall
  have hvalue : (Value.number (.posInt seconds)).asF64 =
      some (seconds.toNat : ℚ) := by
    rw [Value.asF64, Serde.Number.asF64, hexact]
    rfl
  rw [Jose.numericDate, hget]
  simp only [hvalue]

theorem Jose.unexpired_of_lt {claims : Map} {now : ℤ} {what : String}
    {exp : ℚ} (hdate : Jose.numericDate claims "exp" what = .ok (some exp))
    (hlater : rounded now < exp) :
    Jose.unexpired claims now what = .ok exp := by
  rw [Jose.unexpired, Jose.requireDate, hdate]
  simp only [orInvalid, Except.mapError, bind, Except.bind,
    if_neg (not_le.mpr hlater)]

theorem Jose.begun_of_absent {claims : Map} {now : ℤ} {what : String}
    (habsent : claims.get "nbf" = none) :
    Jose.begun claims now what = .ok () := by
  rw [Jose.begun, Jose.numericDate, habsent]
  rfl

end Accepted

/-! ## Isolation -/

/-- Issuers are isolated from one another.  Whoever authenticates with an
agent token is vouched for by a key of the provider of its own domain; where
no key of that provider signs anything, nobody authenticates as an agent of
that domain; and a workload is vouched for by a key of its own trust
domain. -/
theorem issuers_isolated (V : Verifier) (P : Spiffe.P256)
    (Signed : VerifyingKey → Bytes → Prop)
    (SignedPoint : Spiffe.PointKey → Bytes → Prop)
    (hideal : Aauth.Ideal V Signed) (hpoint : Spiffe.Ideal P SignedPoint) :
    (∀ cfg req headersIn now who,
      Aauth.authenticateWith V req headersIn cfg now = .ok who →
        Aauth.Accepted V Signed cfg req now who.subject) ∧
    (∀ (cfg : Aauth.Config) domain,
      (∀ keys key, cfg.providers.lookup ("https://" ++ domain) = some keys →
        key ∈ keys → ∀ message, ¬ Signed key.key message) →
      ∀ req headersIn now who,
        Aauth.authenticateWith V req headersIn cfg now = .ok who →
          Aauth.agentIdentifierDomain who.subject ≠ some domain) ∧
    ∀ cfg header now who,
      Spiffe.authenticate V P header cfg now = .ok who →
        ∃ raw text domain claims, header = some raw ∧
          Spiffe.bearer raw = .ok text ∧
          Spiffe.Vouched V SignedPoint cfg text who.subject domain claims ∧
          Jose.audienceContains (claims.get "aud") cfg.audience = true ∧
          Jose.InsideValidity claims now.toNat := by
  refine ⟨?_, ?_, ?_⟩
  · intro cfg req headersIn now who hok
    exact Aauth.authenticateWith_eq_ok hideal hok
  · intro cfg domain hsilent req headersIn now who hok hdomain
    rcases (Aauth.authenticateWith_eq_ok hideal hok).evidence with
      ⟨_, _, _, claims, _, _, _, _, _, hvouched, _⟩
    rcases hvouched.provider with
      ⟨own, keys, key, parts, hown, hkeys, hkey, _, hsigned, _⟩
    rw [hdomain] at hown
    rw [← Option.some.inj hown] at hkeys
    exact hsilent keys key hkeys hkey _ hsigned
  · intro cfg header now who hok
    exact Spiffe.authenticate_eq_ok hpoint hok

/-! ## A request under an agent token -/

namespace Aauth

open Sig (codes sampleBytes membersText signable_of_visible split_ofList
  utf8ByteSize_ofList)

def sampleProviderKeyBytes : Bytes :=
  [61, 64, 23, 195, 232, 67, 137, 90, 146, 183, 10, 167, 77, 27, 126, 188,
    156, 152, 44, 207, 46, 196, 150, 140, 192, 205, 85, 241, 42, 244, 102, 12]

def sampleProviderKey : VerifyingKey :=
  ⟨sampleProviderKeyBytes.toArray, rfl⟩

def sampleAgentKeyText : List Char :=
  codes
    [49, 49, 113, 89, 65, 89, 75, 120, 67, 114, 102, 86, 83, 95, 55, 84, 121,
    87, 81, 72, 79, 103, 55, 104, 99, 118, 80, 97, 112, 105, 77, 108, 114, 119,
    73, 97, 97, 80, 99, 72, 85, 82, 111]

def sampleHeader64 : List Char :=
  codes
    [101, 121, 74, 48, 101, 88, 65, 105, 79, 105, 74, 104, 89, 83, 49, 104, 90,
    50, 86, 117, 100, 67, 116, 113, 100, 51, 81, 105, 76, 67, 74, 104, 98, 71,
    99, 105, 79, 105, 74, 70, 90, 68, 73, 49, 78, 84, 69, 53, 73, 110, 48]

def sampleClaims64 : List Char :=
  codes
    [101, 121, 74, 112, 99, 51, 77, 105, 79, 105, 74, 111, 100, 72, 82, 119, 99,
    122, 111, 118, 76, 50, 70, 119, 76, 109, 86, 52, 89, 87, 49, 119, 98, 71,
    85, 105, 76, 67, 74, 107, 100, 50, 115, 105, 79, 105, 74, 104, 89, 88, 86,
    48, 97, 67, 49, 104, 90, 50, 86, 117, 100, 67, 53, 113, 99, 50, 57, 117, 73,
    105, 119, 105, 99, 51, 86, 105, 73, 106, 111, 105, 89, 87, 70, 49, 100, 71,
    103, 54, 89, 85, 66, 104, 99, 67, 53, 108, 101, 71, 70, 116, 99, 71, 120,
    108, 73, 105, 119, 105, 97, 110, 82, 112, 73, 106, 111, 105, 100, 67, 73,
    115, 73, 109, 108, 104, 100, 67, 73, 54, 79, 84, 65, 119, 76, 67, 74, 108,
    101, 72, 65, 105, 79, 106, 69, 120, 77, 84, 65, 115, 73, 109, 78, 117, 90,
    105, 73, 54, 101, 121, 74, 113, 100, 50, 115, 105, 79, 110, 115, 105, 97,
    51, 82, 53, 73, 106, 111, 105, 84, 48, 116, 81, 73, 105, 119, 105, 89, 51,
    74, 50, 73, 106, 111, 105, 82, 87, 81, 121, 78, 84, 85, 120, 79, 83, 73,
    115, 73, 110, 103, 105, 79, 105, 73, 120, 77, 88, 70, 90, 81, 86, 108, 76,
    101, 69, 78, 121, 90, 108, 90, 84, 88, 122, 100, 85, 101, 86, 100, 82, 83,
    69, 57, 110, 78, 50, 104, 106, 100, 108, 66, 104, 99, 71, 108, 78, 98, 72,
    74, 51, 83, 87, 70, 104, 85, 71, 78, 73, 86, 86, 74, 118, 73, 105, 119, 105,
    89, 87, 120, 110, 73, 106, 111, 105, 82, 87, 81, 121, 78, 84, 85, 120, 79,
    83, 74, 57, 102, 88, 48]

def sampleSignature64 : List Char :=
  codes
    [87, 98, 55, 53, 89, 48, 82, 121, 49, 56, 98, 57, 104, 48, 66, 71, 51, 116,
    111, 89, 57, 106, 83, 87, 114, 78, 105, 68, 101, 70, 56, 75, 66, 81, 51, 52,
    69, 72, 103, 113, 115, 106, 53, 108, 107, 82, 75, 71, 79, 87, 65, 51, 85,
    116, 74, 103, 95, 122, 116, 95, 69, 54, 120, 103, 67, 81, 49, 106, 68, 85,
    84, 75, 45, 99, 57, 65, 117, 77, 95, 118, 52, 51, 97, 77, 68, 119]

def sampleTokenSignature : Bytes :=
  [89, 190, 249, 99, 68, 114, 215, 198, 253, 135, 64, 70, 222, 218, 24, 246,
    52, 150, 172, 216, 131, 120, 95, 10, 5, 13, 248, 16, 120, 42, 178, 62,
    101, 145, 18, 134, 57, 96, 55, 82, 210, 96, 255, 59, 127, 19, 172, 96, 9,
    13, 99, 13, 68, 202, 249, 207, 64, 184, 207, 239, 227, 118, 140, 15]

def sampleSignatureBytes : Bytes :=
  [69, 243, 24, 3, 115, 233, 12, 214, 172, 12, 27, 106, 159, 161, 69, 70,
    165, 56, 219, 56, 203, 56, 86, 181, 188, 203, 9, 2, 204, 212, 73, 124,
    250, 14, 160, 197, 236, 26, 93, 110, 187, 35, 131, 14, 179, 252, 203, 58,
    225, 6, 233, 216, 72, 15, 47, 190, 179, 154, 31, 64, 205, 159, 62, 8]

def sampleSignatureField : List Char :=
  codes
    [115, 105, 103, 61, 58, 82, 102, 77, 89, 65, 51, 80, 112, 68, 78, 97, 115,
    68, 66, 116, 113, 110, 54, 70, 70, 82, 113, 85, 52, 50, 122, 106, 76, 79,
    70, 97, 49, 118, 77, 115, 74, 65, 115, 122, 85, 83, 88, 122, 54, 68, 113,
    68, 70, 55, 66, 112, 100, 98, 114, 115, 106, 103, 119, 54, 122, 47, 77, 115,
    54, 52, 81, 98, 112, 50, 69, 103, 80, 76, 55, 54, 122, 109, 104, 57, 65,
    122, 90, 56, 43, 67, 65, 61, 61, 58]

def sampleParams : List Char :=
  codes
    [40, 34, 64, 109, 101, 116, 104, 111, 100, 34, 32, 34, 64, 97, 117, 116,
    104, 111, 114, 105, 116, 121, 34, 32, 34, 64, 112, 97, 116, 104, 34, 32, 34,
    115, 105, 103, 110, 97, 116, 117, 114, 101, 45, 107, 101, 121, 34, 41, 59,
    99, 114, 101, 97, 116, 101, 100, 61, 49, 48, 48, 48]

def sampleHeader : Map :=
  [("typ", .string agentTokenTyp), ("alg", .string tokenAlg)]

def sampleClaims : Map :=
  [("iss", .string "https://ap.example"), ("dwk", .string requiredDwk),
    ("sub", .string "aauth:a@ap.example"), ("jti", .string "t"),
    ("iat", .number (.posInt 900)), ("exp", .number (.posInt 1110)),
    ("cnf", .object [("jwk", .object
      [("kty", .string "OKP"), ("crv", .string "Ed25519"),
        ("x", .string (String.ofList sampleAgentKeyText)),
        ("alg", .string "Ed25519")])])]

def sampleToken : List Char :=
  sampleHeader64 ++ '.' :: (sampleClaims64 ++ '.' :: sampleSignature64)

def sampleKeyField : List Char :=
  "sig=jwt;jwt=\"".toList ++ sampleToken ++ ['"']

def sampleInputField : List Char :=
  "sig=".toList ++ sampleParams

def sampleCovered : Sfv.InnerList where
  items := Sig.unbodiedComponents.map fun name => ⟨.string name, []⟩
  params := [("created", .integer 1000)]

def sampleCodec : Sfv.Codec where
  keys _ _ := some ["sig"]
  parse _ raw :=
    if raw.toList = sampleInputField then
      some [("sig", .innerList sampleCovered)]
    else if raw.toList = sampleSignatureField then
      some [("sig", .item ⟨.byteSequence sampleSignatureBytes, []⟩)]
    else if raw.toList = sampleKeyField then
      some [("sig", .item ⟨.token "jwt",
        [("jwt", .string (String.ofList sampleToken))]⟩)]
    else none
  serialize list :=
    if list = sampleCovered then some (String.ofList sampleParams) else none

def sampleComponents : List (String × String) :=
  [("@method", "GET"), ("@authority", "pdp.example"), ("@path", "/access"),
    ("signature-key", String.ofList sampleKeyField)]

def sampleSignedPart : Bytes :=
  ByteText.encode (String.ofList sampleHeader64 ++ "." ++
    String.ofList sampleClaims64)

def sampleVerifier : Verifier where
  floats := sampleFloats
  codec := sampleCodec
  parseAuthority bytes :=
    (ByteText.decode bytes).map fun host => { host, port := none }
  decodeUrl := sampleBytes
    [(sampleHeader64, membersText sampleHeader),
      (sampleClaims64, membersText sampleClaims),
      (sampleSignature64, sampleTokenSignature),
      (sampleAgentKeyText, Sig.sampleKeyBytes)]
  decodeBase64 _ := none
  sha256 := sampleDigest
  sha256_length := Sig.sampleDigest_length
  validPoint key := key == Sig.sampleVerifyingKey
  verifyStrict key message signature :=
    (key == sampleProviderKey && message == sampleSignedPart &&
        signature.toList == sampleTokenSignature) ||
      (key == Sig.sampleVerifyingKey &&
        message == ByteText.encode (String.ofList
          (HttpSig.baseText sampleComponents sampleParams)) &&
        signature.toList == sampleSignatureBytes)

def sampleConfig : Config where
  providers :=
    [("https://ap.example", [{ kid := "k", key := sampleProviderKey }])]
  authority := "pdp.example"
  pep := []

def sampleRequest : SignedRequest where
  method := "GET"
  authority := "pdp.example"
  path := "/access"
  signatureKey := some (String.ofList sampleKeyField)
  signatureInput := some (String.ofList sampleInputField)
  signature := some (String.ofList sampleSignatureField)
  contentDigest := none
  body := []

/-- What the texts of the request are. -/
theorem sample_texts :
    (∀ chars ∈ [sampleKeyField, sampleInputField, sampleSignatureField],
      chars.all visible = true ∧ chars.length ≤ Sig.maxTokenBytes) ∧
      [sampleHeader64, sampleClaims64, sampleSignature64,
        sampleAgentKeyText].Pairwise (· ≠ ·) ∧
      sampleSignatureField ≠ sampleInputField ∧
      sampleKeyField ≠ sampleInputField ∧
      sampleKeyField ≠ sampleSignatureField ∧
      sampleToken ≠ [] ∧ sampleSignature64 ≠ [] ∧
      sampleToken.splitOn '.' =
        [sampleHeader64, sampleClaims64, sampleSignature64] ∧
      (∀ text ∈ ["GET", "pdp.example", "/access"],
        HttpSig.signable text = true) ∧
      tokenSubject ⟨"https://ap.example", sampleClaims⟩ =
        .ok "aauth:a@ap.example" ∧
      eqIgnoreAsciiCase sampleRequest.authority sampleConfig.authority =
        true := by
  decide +kernel

theorem sample_visible {chars : List Char}
    (hmem : chars ∈ [sampleKeyField, sampleInputField,
      sampleSignatureField]) :
    chars.all visible = true :=
  (sample_texts.1 chars hmem).1

theorem sample_short {chars : List Char}
    (hmem : chars ∈ [sampleKeyField, sampleInputField,
      sampleSignatureField]) :
    ¬ Sig.maxTokenBytes < (String.ofList chars).utf8ByteSize := by
  rw [utf8ByteSize_ofList (sample_visible hmem), not_lt]
  exact (sample_texts.1 chars hmem).2

theorem sample_parts_ne :
    sampleClaims64 ≠ sampleHeader64 ∧ sampleSignature64 ≠ sampleHeader64 ∧
      sampleAgentKeyText ≠ sampleHeader64 ∧
      sampleSignature64 ≠ sampleClaims64 ∧
      sampleAgentKeyText ≠ sampleClaims64 ∧
      sampleAgentKeyText ≠ sampleSignature64 := by
  simpa [and_assoc, ne_comm] using sample_texts.2.1

def sampleHeaders : SignatureHeaders where
  key := String.ofList sampleKeyField
  input := String.ofList sampleInputField
  signature := String.ofList sampleSignatureField

theorem sample_signatureHeaders :
    sampleRequest.signatureHeaders = .ok sampleHeaders := by
  have hkey := @sample_short sampleKeyField (by simp)
  have hinput := @sample_short sampleInputField (by simp)
  have hsignature := @sample_short sampleSignatureField (by simp)
  rw [SignedRequest.signatureHeaders]
  simp only [sampleRequest, hkey, hinput, hsignature, or_self, if_false]
  rfl

def samplePresented : Presented where
  label := "sig"
  components := Sig.unbodiedComponents
  created := 1000
  expires := none
  params := String.ofList sampleParams
  signature := sampleSignatureBytes

theorem sample_presented :
    presented sampleVerifier sampleRequest sampleHeaders 1010 =
      .ok samplePresented := by
  have hinput : sampleHeaders.input.toList = sampleInputField :=
    String.toList_ofList
  have hsignature : sampleHeaders.signature.toList = sampleSignatureField :=
    String.toList_ofList
  have hne : sampleSignatureField ≠ sampleInputField := sample_texts.2.2.1
  have hinputs : HttpSig.dictionary sampleCodec sampleHeaders.input
      "Signature-Input" = .ok [("sig", .innerList sampleCovered)] := by
    simp [HttpSig.dictionary, sampleCodec, hinput, HttpSig.firstRepeat]
  have hsignatures : HttpSig.dictionary sampleCodec sampleHeaders.signature
      "Signature" =
        .ok [("sig", .item ⟨.byteSequence sampleSignatureBytes, []⟩)] := by
    simp [HttpSig.dictionary, sampleCodec, hsignature, hne,
      HttpSig.firstRepeat]
  have hread : HttpSig.presentedUnder sampleVerifier.codec profile
      sampleHeaders.input sampleHeaders.signature = .ok samplePresented := by
    have hcodec : sampleVerifier.codec = sampleCodec := rfl
    rw [HttpSig.presentedUnder, hcodec, hinputs, hsignatures]
    simp only [bind, Except.bind]
    rfl
  rw [presented, hread]
  rfl

theorem sample_token :
    tokenFromSignatureKey sampleVerifier sampleHeaders.key "sig" =
      .ok (String.ofList sampleToken) := by
  have hkey : sampleHeaders.key.toList = sampleKeyField :=
    String.toList_ofList
  rcases sample_texts with ⟨_, _, _, hinput, hsignature, htoken, _⟩
  have hmembers : HttpSig.dictionary9651 sampleVerifier.codec
      sampleHeaders.key "Signature-Key" = .ok [("sig", .item ⟨.token "jwt",
        [("jwt", .string (String.ofList sampleToken))]⟩)] := by
    have hparse : sampleVerifier.codec.parse .rfc9651 sampleHeaders.key =
        some [("sig", .item ⟨.token "jwt",
          [("jwt", .string (String.ofList sampleToken))]⟩)] := by
      simp only [sampleVerifier, sampleCodec, hkey, if_neg hinput,
        if_neg hsignature, if_true]
    rw [HttpSig.dictionary9651, hparse]
  have hsome : String.ofList sampleToken ≠ "" := by
    intro hempty
    have hchars := congrArg String.toList hempty
    rw [String.toList_ofList] at hchars
    exact htoken hchars
  exact tokenFromSignatureKey_of_member hmembers hsome

theorem sample_split :
    Jose.split (String.ofList sampleToken) =
      some (String.ofList sampleHeader64, String.ofList sampleClaims64,
        String.ofList sampleSignature64) :=
  split_ofList sample_texts.2.2.2.2.2.2.2.1

theorem sample_header :
    Jose.decodeMap sampleVerifier (String.ofList sampleHeader64)
      "agent token header" = .ok sampleHeader := by
  apply Jose.decodeMap_of_members
  · simp [sampleVerifier, sampleBytes, membersText]
  · decide
  · simp [sampleVerifier, sampleHeader, Value.toDoc, Value.toMembers,
      Value.ofDoc, Value.ofMembers, Serde.Map.insert]

theorem sample_claims :
    Jose.decodeMap sampleVerifier (String.ofList sampleClaims64)
      "agent token claims" = .ok sampleClaims := by
  have hskip := beq_eq_false_iff_ne.mpr sample_parts_ne.1
  have hnumber : ∀ value : UInt64, Serde.Number.ofText sampleFloats
      (Serde.Number.toText sampleFloats (.posInt value)) =
        some (.posInt value) := by
    intro value
    have hlt : value.toNat < 18446744073709551616 := value.toNat_lt_size
    simp [Serde.Number.ofText, Serde.Number.toText, hlt]
  apply Jose.decodeMap_of_members
  · simp [sampleVerifier, sampleBytes, List.lookup_cons, hskip, membersText]
  · decide
  · simp [sampleVerifier, sampleClaims, Value.toDoc, Value.toMembers,
      Value.ofDoc, Value.ofMembers, Serde.Map.insert, hnumber]

theorem sample_signed :
    sampleVerifier.decodeUrl (String.ofList sampleSignature64) =
        some sampleTokenSignature ∧
      sampleVerifier.verifyStrict sampleProviderKey (ByteText.encode
        (String.ofList sampleHeader64 ++ "." ++
          String.ofList sampleClaims64))
        ⟨sampleTokenSignature.toArray, rfl⟩ = true := by
  have hskip := beq_eq_false_iff_ne.mpr sample_parts_ne.2.1
  have hskip' := beq_eq_false_iff_ne.mpr sample_parts_ne.2.2.2.1
  constructor
  · simp [sampleVerifier, sampleBytes, List.lookup_cons, hskip, hskip']
  · have hbytes : (⟨sampleTokenSignature.toArray, rfl⟩ :
        Signature).toList = sampleTokenSignature := rfl
    simp [sampleVerifier, sampleSignedPart, hbytes]

theorem sample_verifyToken :
    verifyToken sampleVerifier sampleConfig (String.ofList sampleToken) =
      .ok { issuer := "https://ap.example", claims := sampleClaims } := by
  have hsome : String.ofList sampleSignature64 ≠ "" := by
    intro hempty
    have hchars := congrArg String.toList hempty
    rw [String.toList_ofList] at hchars
    exact sample_texts.2.2.2.2.2.2.1 hchars
  exact verifyToken_of_claims sample_split hsome sample_header (by decide)
    sample_claims rfl rfl rfl rfl sample_signed.1 rfl sample_signed.2

def sampleJwk : Jwk where
  kty := "OKP"
  crv := some "Ed25519"
  x := some (String.ofList sampleAgentKeyText)
  alg := some "Ed25519"
  kid := none
  use := none

theorem sample_confirmedKey :
    confirmedKey sampleVerifier sampleClaims = .ok Sig.sampleVerifyingKey := by
  rcases sample_parts_ne with ⟨_, _, hheader, _, hclaims, hsignature⟩
  have hskip := beq_eq_false_iff_ne.mpr hheader
  have hskip' := beq_eq_false_iff_ne.mpr hclaims
  have hskip'' := beq_eq_false_iff_ne.mpr hsignature
  have hdecode : sampleVerifier.decodeUrl (String.ofList sampleAgentKeyText) =
      some Sig.sampleKeyBytes := by
    simp [sampleVerifier, sampleBytes, List.lookup_cons, hskip, hskip',
      hskip'']
  have hpoint : sampleVerifier.validPoint Sig.sampleVerifyingKey = true := by
    simp [sampleVerifier]
  have hkey : toVerifyingKey Sig.sampleKeyBytes =
      some Sig.sampleVerifyingKey := rfl
  have hcnf : (sampleClaims.get "cnf").map (readCnf Serde.valueSource) =
      some (.ok sampleJwk) := rfl
  rcases Option.map_eq_some_iff.mp hcnf with ⟨cnf, hget, hread⟩
  have hed : sampleJwk.ed25519 sampleVerifier = .ok Sig.sampleVerifyingKey := by
    have hsame : sampleJwk.ed25519 sampleVerifier =
        Jwk.point sampleVerifier (String.ofList sampleAgentKeyText)
          "the key's x is not base64url" "the key's x is not 32 bytes"
          "the key's x is not a valid point" := rfl
    rw [hsame, Jwk.point, hdecode]
    simp only [hkey, hpoint, if_true]
  simp only [confirmedKey, hget, hread, hed]

theorem sample_checkTimes : checkTimes sampleClaims 1010 = .ok () := by
  have hexact : ∀ n : ℤ, |n| < 2 ^ 53 → rounded (n : ℚ) = n :=
    fun n hn => FiniteDouble.rounded_intCast hn
  have hlater : (1110 : UInt64).toNat = 1110 := rfl
  have hearlier : (900 : UInt64).toNat = 900 := rfl
  have hnow := hexact 1010 (by norm_num)
  have hwindow : windowEnd 1010 = 1070 := by decide
  have hend := hexact 1070 (by norm_num)
  have hlife : rounded (maxAgentTokenLifetimeSecs : ℚ) = 86400 :=
    hexact 86400 (by norm_num)
  have hspan : rounded (((1110 : UInt64).toNat : ℚ) -
      ((900 : UInt64).toNat : ℚ)) = 210 := by
    have hdifference : ((1110 : UInt64).toNat : ℚ) -
        ((900 : UInt64).toNat : ℚ) = ((210 : ℤ) : ℚ) := by
      rw [hlater, hearlier]
      norm_num
    rw [hdifference]
    exact hexact 210 (by norm_num)
  have hexp : Jose.unexpired sampleClaims 1010 "agent token" =
      .ok (((1110 : UInt64).toNat : ℕ) : ℚ) :=
    Jose.unexpired_of_lt (Jose.numericDate_of_natural rfl (by decide))
      (by rw [hnow, hlater]; norm_num)
  have hiat : Jose.numericDate sampleClaims "iat" "agent token" =
      .ok (some (((900 : UInt64).toNat : ℕ) : ℚ)) :=
    Jose.numericDate_of_natural rfl (by decide)
  have hbegun : Jose.begun sampleClaims 1010 "agent token" = .ok () :=
    Jose.begun_of_absent rfl
  simp only [checkTimes, hexp, Jose.requireDate, hiat, hwindow, hend, hspan,
    hlife, hbegun, orInvalid, Except.mapError, bind, Except.bind]
  norm_num [hearlier]

theorem sample_confirmed :
    confirmed sampleVerifier
        { issuer := "https://ap.example", claims := sampleClaims } 1010 =
      .ok ("aauth:a@ap.example", Sig.sampleVerifyingKey) :=
  confirmed_of_claims sample_texts.2.2.2.2.2.2.2.2.2.1
    (show Jose.getStr sampleClaims "jti" = some "t" from rfl) (by decide)
    sample_checkTimes rfl rfl sample_confirmedKey

theorem sample_base :
    ∃ base, sampleRequest.signatureBaseWith sampleVerifier sampleHeaders.key
        samplePresented [] = .ok base ∧
      base.toList = HttpSig.baseText sampleComponents sampleParams := by
  have hunbodied : ¬ samplePresented.components.contains "content-digest" =
      true := by decide
  have hsignable : HttpSig.signable (String.ofList sampleKeyField) = true :=
    signable_of_visible (sample_visible (by simp))
  have htexts := sample_texts.2.2.2.2.2.2.2.2.1
  have hdraws : HttpSig.Draws
      (sampleRequest.message [("signature-key", sampleHeaders.key)])
      samplePresented.components sampleComponents := by
    refine ⟨rfl, ?_⟩
    simp only [sampleComponents, List.forall_mem_cons, List.not_mem_nil,
      false_imp_iff, implies_true, and_true]
    refine ⟨?_, ?_, ?_, ?_⟩
    · exact HttpSig.value_of_draw rfl (htexts _ (by simp))
    · exact HttpSig.value_of_draw rfl (htexts _ (by simp))
    · exact HttpSig.value_of_draw rfl (htexts _ (by simp))
    · exact HttpSig.value_of_draw rfl hsignable
  rcases HttpSig.signatureBase_of_draws hdraws with ⟨base, hbase, htext⟩
  refine ⟨base, ?_, ?_⟩
  · exact signatureBaseWith_of_unbodied hunbodied hbase
  · rw [htext, samplePresented, String.toList_ofList]

theorem sample_authenticated :
    authenticateWith sampleVerifier sampleRequest [] sampleConfig 1010 =
      .ok (sampleConfig.caller "aauth:a@ap.example" "https://ap.example") := by
  rcases sample_base with ⟨base, hbase, htext⟩
  have hsame : base = String.ofList
      (HttpSig.baseText sampleComponents sampleParams) := by
    rw [← htext, String.ofList_toList]
  have hbytes : (⟨sampleSignatureBytes.toArray, rfl⟩ :
      Signature).toList = sampleSignatureBytes := rfl
  have hverify : sampleVerifier.verifyStrict Sig.sampleVerifyingKey
      (ByteText.encode base) ⟨sampleSignatureBytes.toArray, rfl⟩ = true := by
    simp [sampleVerifier, hsame, hbytes]
  exact authenticateWith_of_verified (List.cons_ne_nil _ _)
    sample_signatureHeaders sample_texts.2.2.2.2.2.2.2.2.2.2 sample_presented
    sample_token
    sample_verifyToken sample_confirmed rfl hbase rfl hverify

end Aauth

/-! A workload. -/

namespace Spiffe

open Sig (codes sampleBytes membersText split_ofList utf8ByteSize_ofList)

def samplePoint : PointKey where
  x := ⟨#[8, 166, 47, 125, 154, 219, 148, 173, 119, 96, 156, 207, 175, 114, 254,
      191, 119, 199, 128, 117, 170, 211, 146, 113, 38, 236, 62, 45, 53, 200,
      197, 178], rfl⟩
  y := ⟨#[76, 93, 146, 142, 95, 149, 238, 34, 143, 145, 139, 246, 42, 157, 224,
      56, 88, 229, 250, 204, 219, 208, 23, 114, 71, 180, 221, 52, 171, 199,
      215, 160], rfl⟩

def sampleHeader64 : List Char :=
  codes
    [101, 121, 74, 104, 98, 71, 99, 105, 79, 105, 74, 70, 85, 122, 73, 49, 78,
    105, 74, 57]

def sampleClaims64 : List Char :=
  codes
    [101, 121, 74, 122, 100, 87, 73, 105, 79, 105, 74, 122, 99, 71, 108, 109,
    90, 109, 85, 54, 76, 121, 57, 108, 101, 71, 70, 116, 99, 71, 120, 108, 76,
    109, 57, 121, 90, 121, 57, 51, 73, 105, 119, 105, 89, 88, 86, 107, 73, 106,
    112, 98, 73, 110, 66, 107, 99, 67, 74, 100, 76, 67, 74, 108, 101, 72, 65,
    105, 79, 106, 69, 120, 77, 84, 66, 57]

def sampleSignature64 : List Char :=
  codes
    [45, 77, 51, 90, 100, 69, 120, 108, 112, 117, 122, 88, 49, 57, 98, 117, 71,
    68, 98, 97, 70, 88, 65, 80, 76, 112, 71, 76, 65, 71, 57, 55, 109, 100, 107,
    74, 107, 120, 86, 119, 89, 85, 81, 113, 67, 109, 89, 122, 90, 122, 106, 111,
    73, 106, 51, 51, 70, 120, 116, 88, 67, 74, 104, 57, 71, 97, 107, 102, 87,
    49, 89, 72, 108, 66, 100, 97, 48, 56, 45, 117, 120, 107, 79, 67, 77, 81]

def sampleSignatureBytes : Bytes :=
  [248, 205, 217, 116, 76, 101, 166, 236, 215, 215, 214, 238, 24, 54, 218,
    21, 112, 15, 46, 145, 139, 0, 111, 123, 153, 217, 9, 147, 21, 112, 97,
    68, 42, 10, 102, 51, 103, 56, 232, 34, 61, 247, 23, 27, 87, 8, 152, 125,
    25, 169, 31, 91, 86, 7, 148, 23, 90, 211, 207, 174, 198, 67, 130, 49]

def sampleHeader : Map :=
  [("alg", .string acceptedAlg)]

def sampleClaims : Map :=
  [("sub", .string "spiffe://example.org/w"),
    ("aud", .array [.string "pdp"]), ("exp", .number (.posInt 1110))]

def sampleToken : List Char :=
  sampleHeader64 ++ '.' :: (sampleClaims64 ++ '.' :: sampleSignature64)

def sampleAuthorization : List Char :=
  "Bearer ".toList ++ sampleToken

def sampleVerifier : Verifier where
  floats := sampleFloats
  codec := Aauth.sampleCodec
  parseAuthority _ := none
  decodeUrl := sampleBytes
    [(sampleHeader64, membersText sampleHeader),
      (sampleClaims64, membersText sampleClaims),
      (sampleSignature64, sampleSignatureBytes)]
  decodeBase64 _ := none
  sha256 := sampleDigest
  sha256_length := Sig.sampleDigest_length
  validPoint _ := false
  verifyStrict _ _ _ := false

def samplePlatform : P256 where
  fromSlice := toSignature
  verify key message signature :=
    key == samplePoint &&
      message == ByteText.encode (String.ofList sampleHeader64 ++ "." ++
        String.ofList sampleClaims64) &&
      signature.toList == sampleSignatureBytes

def sampleConfig : Config where
  trustDomains := [("example.org", [{ kid := "k", key := samplePoint }])]
  audience := "pdp"
  pep := []

/-- What the texts of the token are. -/
theorem sample_texts :
    (sampleToken.all visible = true ∧
      RustText.trimChars sampleToken = sampleToken ∧
      sampleToken.length ≤ maxTokenBytes) ∧
      [sampleHeader64, sampleClaims64, sampleSignature64].Pairwise
        (· ≠ ·) ∧
      splitOnce ' ' sampleAuthorization =
        some ("Bearer".toList, sampleToken) ∧
      sampleToken.splitOn '.' =
        [sampleHeader64, sampleClaims64, sampleSignature64] ∧
      sampleSignature64 ≠ [] ∧
      trustDomainOf "spiffe://example.org/w" = some "example.org" := by
  decide +kernel

theorem sample_parts_ne :
    sampleClaims64 ≠ sampleHeader64 ∧ sampleSignature64 ≠ sampleHeader64 ∧
      sampleSignature64 ≠ sampleClaims64 := by
  simpa [and_assoc, ne_comm] using sample_texts.2.1

theorem sample_bearer :
    bearer (String.ofList sampleAuthorization) =
      .ok (String.ofList sampleToken) := by
  have hsplit : splitOnce ' ' sampleAuthorization =
      some ("Bearer".toList, sampleToken) := sample_texts.2.2.1
  have htrim : RustText.trimChars sampleToken = sampleToken :=
    sample_texts.1.2.1
  rw [bearer, String.toList_ofList, hsplit]
  simp only [String.ofList_toList, RustText.trim, String.toList_ofList,
    htrim]
  rfl

theorem sample_header :
    Jose.decodeMap sampleVerifier (String.ofList sampleHeader64)
      "token header" = .ok sampleHeader := by
  apply Jose.decodeMap_of_members
  · simp [sampleVerifier, sampleBytes, membersText]
  · decide
  · simp [sampleVerifier, sampleHeader, Value.toDoc, Value.toMembers,
      Value.ofDoc, Value.ofMembers, Serde.Map.insert]

theorem sample_claims :
    Jose.decodeMap sampleVerifier (String.ofList sampleClaims64)
      "token claims" = .ok sampleClaims := by
  have hskip := beq_eq_false_iff_ne.mpr sample_parts_ne.1
  have hnumber : Serde.Number.ofText sampleFloats
      (Serde.Number.toText sampleFloats (.posInt 1110)) =
        some (.posInt 1110) := by
    simp [Serde.Number.ofText, Serde.Number.toText]
  apply Jose.decodeMap_of_members
  · simp [sampleVerifier, sampleBytes, List.lookup_cons, hskip, membersText]
  · decide
  · simp [sampleVerifier, sampleClaims, Value.toDoc, Value.toDocs,
      Value.toMembers, Value.ofDoc, Value.ofDocs, Value.ofMembers,
      Serde.Map.insert, hnumber]

theorem sample_signature :
    sampleVerifier.decodeUrl (String.ofList sampleSignature64) =
      some sampleSignatureBytes := by
  have hskip := beq_eq_false_iff_ne.mpr sample_parts_ne.2.1
  have hskip' := beq_eq_false_iff_ne.mpr sample_parts_ne.2.2
  simp [sampleVerifier, sampleBytes, List.lookup_cons, hskip, hskip']

def sampleWorkload : Token where
  subject := "spiffe://example.org/w"
  domain := "example.org"
  claims := sampleClaims

theorem sample_verifyToken :
    verifyToken sampleVerifier samplePlatform sampleConfig
      (String.ofList sampleToken) = .ok sampleWorkload := by
  have hsome : String.ofList sampleSignature64 ≠ "" := by
    intro hempty
    have hchars := congrArg String.toList hempty
    rw [String.toList_ofList] at hchars
    exact sample_texts.2.2.2.2.1 hchars
  have hbytes : (⟨sampleSignatureBytes.toArray, rfl⟩ :
      Signature).toList = sampleSignatureBytes := rfl
  exact verifyToken_of_claims (split_ofList sample_texts.2.2.2.1) hsome
    sample_header (by decide) sample_claims rfl sample_texts.2.2.2.2.2 rfl rfl
    sample_signature rfl (by simp [samplePlatform, hbytes])

theorem sample_authenticated :
    authenticate sampleVerifier samplePlatform
        (some (String.ofList sampleAuthorization)) sampleConfig 1010 =
      .ok (sampleConfig.caller "spiffe://example.org/w" "example.org") := by
  have hlater : (1110 : UInt64).toNat = 1110 := rfl
  have hclock : ((1010 : UInt64).toNat : ℤ) = 1010 := rfl
  have hnow : rounded ((1010 : ℤ) : ℚ) = (1010 : ℤ) :=
    FiniteDouble.rounded_intCast (by norm_num)
  have hexp : Jose.unexpired sampleClaims 1010 "token" =
      .ok (((1110 : UInt64).toNat : ℕ) : ℚ) :=
    Jose.unexpired_of_lt (Jose.numericDate_of_natural rfl (by decide))
      (by rw [hnow, hlater]; norm_num)
  have hsize : (String.ofList sampleToken).utf8ByteSize =
      sampleToken.length :=
    utf8ByteSize_ofList sample_texts.1.1
  have hshort : sampleToken.length ≤ maxTokenBytes := sample_texts.1.2.2
  have hbegun : Jose.begun sampleClaims 1010 "token" = .ok () :=
    Jose.begun_of_absent rfl
  exact authenticate_of_verified (List.cons_ne_nil _ _) sample_bearer
    (hsize ▸ hshort) sample_verifyToken sample_texts.2.2.2.2.2 (by decide)
    (hclock ▸ hexp) (hclock ▸ hbegun)

end Spiffe

theorem issuers_isolated_sample :
    Aauth.Accepted Aauth.sampleVerifier
        (fun key message => ∃ signature,
          Aauth.sampleVerifier.verifyStrict key message signature = true)
        Aauth.sampleConfig Aauth.sampleRequest 1010 "aauth:a@ap.example" ∧
      ∃ raw text domain claims,
        some (String.ofList Spiffe.sampleAuthorization) = some raw ∧
          Spiffe.bearer raw = .ok text ∧
          Spiffe.Vouched Spiffe.sampleVerifier
            (fun key message => ∃ signature,
              Spiffe.samplePlatform.verify key message signature = true)
            Spiffe.sampleConfig text "spiffe://example.org/w" domain claims ∧
          Jose.audienceContains (claims.get "aud") "pdp" = true ∧
          Jose.InsideValidity claims (1010 : UInt64).toNat := by
  have hagent := (issuers_isolated Aauth.sampleVerifier Spiffe.samplePlatform
    (fun key message => ∃ signature,
      Aauth.sampleVerifier.verifyStrict key message signature = true)
    (fun key message => ∃ signature,
      Spiffe.samplePlatform.verify key message signature = true)
    (fun _ _ signature h => ⟨signature, h⟩)
    (fun _ _ signature h => ⟨signature, h⟩)).1 _ _ _ _ _
      Aauth.sample_authenticated
  have hworkload := (issuers_isolated Spiffe.sampleVerifier
    Spiffe.samplePlatform
    (fun key message => ∃ signature,
      Spiffe.sampleVerifier.verifyStrict key message signature = true)
    (fun key message => ∃ signature,
      Spiffe.samplePlatform.verify key message signature = true)
    (fun _ _ signature h => ⟨signature, h⟩)
    (fun _ _ signature h => ⟨signature, h⟩)).2.2 _ _ _ _
      Spiffe.sample_authenticated
  rw [Aauth.caller_subject] at hagent
  rw [Spiffe.caller_subject] at hworkload
  exact ⟨hagent, hworkload⟩

/-! ## Whose key vouches -/

/-- An agent that is accepted has a token signed by a key of the provider at
its own domain, and a workload one signed by a key of its own trust domain. -/
theorem accepted_of_own_issuer (V : Verifier) (P : Spiffe.P256)
    (Signed : VerifyingKey → Bytes → Prop)
    (SignedPoint : Spiffe.PointKey → Bytes → Prop)
    (hideal : Aauth.Ideal V Signed) (hpoint : Spiffe.Ideal P SignedPoint) :
    (∀ cfg req headersIn now who,
      Aauth.authenticateWith V req headersIn cfg now = .ok who →
        Aauth.Accepted V Signed cfg req now who.subject ∧
        ∀ domain, Aauth.agentIdentifierDomain who.subject = some domain →
          ∃ keys key message,
            cfg.providers.lookup ("https://" ++ domain) = some keys ∧
            key ∈ keys ∧ Signed key.key message) ∧
    ∀ (cfg : Spiffe.Config) req now who,
      cfg.authenticate V P req now = .ok who →
        ∃ line raw text domain claims,
          (headerLines req.headers "authorization").head? = some line ∧
          toStr line = some raw ∧ Spiffe.bearer raw = .ok text ∧
          Spiffe.Vouched V SignedPoint cfg text who.subject domain claims ∧
          Jose.audienceContains (claims.get "aud") cfg.audience = true ∧
          Jose.InsideValidity claims now.toNat := by
  constructor
  · intro cfg req headersIn now who hok
    have haccepted := Aauth.authenticateWith_eq_ok hideal hok
    refine ⟨haccepted, fun domain hdomain => ?_⟩
    rcases haccepted.evidence with
      ⟨_, _, _, claims, _, _, _, _, _, hvouched, _⟩
    rcases hvouched.provider with
      ⟨own, keys, key, parts, hown, hkeys, hkey, _, hsigned, _⟩
    rw [hdomain] at hown
    rw [← Option.some.inj hown] at hkeys
    exact ⟨keys, key, _, hkeys, hkey, hsigned⟩
  · intro cfg req now who hok
    exact Spiffe.Config.authenticate_eq_ok hpoint hok

namespace Spiffe

def sampleCall : Request where
  method := "POST"
  target := none
  path := "/access/v1/evaluation"
  headers :=
    [("authorization", ByteText.encode (String.ofList sampleAuthorization))]

theorem sampleCall_authenticated :
    sampleConfig.authenticate sampleVerifier samplePlatform sampleCall 1010 =
      .ok (sampleConfig.caller "spiffe://example.org/w" "example.org") := by
  have hvisible : sampleAuthorization.all visible = true := by
    decide +kernel
  have hheader : (headerLines sampleCall.headers "authorization").head?.bind
      toStr = some (String.ofList sampleAuthorization) := by
    simp only [headerLines, sampleCall, List.filter_cons, List.filter_nil,
      beq_self_eq_true, if_true, List.map_cons, List.map_nil, List.head?_cons,
      Option.bind_some]
    exact toStr_encode (by rwa [String.toList_ofList])
  rw [Config.authenticate, hheader]
  exact sample_authenticated

end Spiffe

theorem accepted_of_own_issuer_sample :
    (∃ keys key message,
      Aauth.sampleConfig.providers.lookup "https://ap.example" = some keys ∧
        key ∈ keys ∧ ∃ signature,
          Aauth.sampleVerifier.verifyStrict key.key message signature =
            true) ∧
      ∃ text domain claims,
        Spiffe.Vouched Spiffe.sampleVerifier
          (fun key message => ∃ signature,
            Spiffe.samplePlatform.verify key message signature = true)
          Spiffe.sampleConfig text "spiffe://example.org/w" domain claims ∧
        Jose.InsideValidity claims (1010 : UInt64).toNat := by
  have hagent := (accepted_of_own_issuer Aauth.sampleVerifier
    Spiffe.samplePlatform
    (fun key message => ∃ signature,
      Aauth.sampleVerifier.verifyStrict key message signature = true)
    (fun key message => ∃ signature,
      Spiffe.samplePlatform.verify key message signature = true)
    (fun _ _ signature h => ⟨signature, h⟩)
    (fun _ _ signature h => ⟨signature, h⟩)).1 _ _ _ _ _
      Aauth.sample_authenticated
  have hworkload := (accepted_of_own_issuer Spiffe.sampleVerifier
    Spiffe.samplePlatform
    (fun key message => ∃ signature,
      Spiffe.sampleVerifier.verifyStrict key message signature = true)
    (fun key message => ∃ signature,
      Spiffe.samplePlatform.verify key message signature = true)
    (fun _ _ signature h => ⟨signature, h⟩)
    (fun _ _ signature h => ⟨signature, h⟩)).2 _ _ _ _
      Spiffe.sampleCall_authenticated
  rw [Aauth.caller_subject] at hagent
  rw [Spiffe.caller_subject] at hworkload
  rcases hworkload with
    ⟨_, _, text, domain, claims, _, _, _, hvouched, _, hvalid⟩
  exact ⟨hagent.2 "ap.example" (by decide +kernel), text, domain, claims,
    hvouched, hvalid⟩

end Decern
