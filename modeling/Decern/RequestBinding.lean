import Decern.BoundTokens
import Decern.SamplePlatform
import Decern.SignatureBase
import Mathlib.Tactic

/-!
# What a signed request is bound to

An accepted request has a base that its own method, authority, path, key and,
where one is covered, digest are read back from.  A signature that verifies
one base is a signature over one request.
-/

namespace Decern.Sig

open ByteText (Bytes)
open Decide (Authenticated)
open FiniteDouble (rounded)
open HttpSig (Draws Message Presented)
open Serde (bind_eq_ok)

variable {V : Verifier}

/-! ## What each step reads -/

theorem signatureHeaders_eq_ok {req : SignedRequest}
    {headers : SignatureHeaders} (hok : req.signatureHeaders = .ok headers) :
    req.signatureKey = some headers.key ∧
      req.signatureInput = some headers.input ∧
      req.signature = some headers.signature := by
  unfold SignedRequest.signatureHeaders at hok
  cases hkey : req.signatureKey with
  | none =>
      simp only [hkey] at hok
      cases hok
  | some key =>
      cases hinput : req.signatureInput with
      | none =>
          simp only [hkey, hinput] at hok
          cases hok
      | some input =>
          cases hsignature : req.signature with
          | none =>
              simp only [hkey, hinput, hsignature] at hok
              cases hok
          | some signature =>
              simp only [hkey, hinput, hsignature] at hok
              split at hok
              · cases hok
              · cases hok
                exact ⟨rfl, rfl, rfl⟩

theorem fromRequest_eq_ok {req : Request} {body : Bytes}
    {fields : SignedRequest} (hok : fromRequest V req body = .ok fields) :
    HttpSig.authority V req.target req.headers = .ok fields.authority ∧
      HttpSig.field req.headers "signature-key" = .ok fields.signatureKey ∧
      HttpSig.field req.headers "signature-input" =
        .ok fields.signatureInput ∧
      HttpSig.field req.headers "signature" = .ok fields.signature ∧
      HttpSig.field req.headers "content-digest" =
        .ok fields.contentDigest ∧
      fields.method = req.method ∧ fields.path = req.path ∧
      fields.body = body := by
  unfold fromRequest at hok
  rcases bind_eq_ok.mp hok with ⟨authority, hauthority, hok⟩
  rcases bind_eq_ok.mp hok with ⟨key, hkey, hok⟩
  rcases bind_eq_ok.mp hok with ⟨input, hinput, hok⟩
  rcases bind_eq_ok.mp hok with ⟨signature, hsignature, hok⟩
  rcases bind_eq_ok.mp hok with ⟨digest, hdigest, hok⟩
  cases hok
  exact ⟨hauthority, hkey, hinput, hsignature, hdigest, rfl, rfl, rfl⟩

theorem coversExactly_eq_ok {p : Presented} {required : List String}
    (hok : p.coversExactly required = .ok ()) : p.components = required := by
  unfold Presented.coversExactly at hok
  split at hok
  · cases hok
  · simp_all

theorem presented_eq_ok {req : SignedRequest} {headers : SignatureHeaders}
    {now : ℤ} {p : Presented}
    (hok : req.presented V headers now = .ok p) :
    HttpSig.presented V.codec label headers.input headers.signature = .ok p ∧
      p.components = requiredComponents req.method req.body := by
  unfold SignedRequest.presented at hok
  rcases bind_eq_ok.mp hok with ⟨p', hp, hok⟩
  rcases bind_eq_ok.mp hok with ⟨covered, hcovers, hok⟩
  rcases bind_eq_ok.mp hok with ⟨fresh, _, hok⟩
  cases hok
  exact ⟨hp, coversExactly_eq_ok hcovers⟩

theorem bound_eq_ok {cfg : Config} {text : String} {token : Bound}
    (hok : bound V cfg text = .ok token) :
    ∃ keys, cfg.agents.lookup token.agent = some keys ∧
      token.key ∈ keys := by
  unfold bound at hok
  cases hparts : Jose.split text with
  | none =>
      simp only [hparts] at hok
      cases hok
  | some parts =>
      simp only [hparts] at hok
      rcases bind_eq_ok.mp hok with ⟨header, _, hok⟩
      rcases bind_eq_ok.mp hok with ⟨_, _, hok⟩
      rcases bind_eq_ok.mp hok with ⟨claims, _, hok⟩
      rcases bind_eq_ok.mp hok with ⟨subject, _, hok⟩
      rcases bind_eq_ok.mp hok with ⟨_, _, hok⟩
      split at hok
      · cases hok
      · cases hkeys : cfg.agents.lookup subject with
        | none =>
            simp only [hkeys] at hok
            cases hok
        | some keys =>
            simp only [hkeys] at hok
            rcases bind_eq_ok.mp hok with ⟨tokenKey, _, hok⟩
            cases hkey : keys.find? fun key => key == tokenKey with
            | none =>
                simp only [hkey] at hok
                cases hok
            | some key =>
                simp only [hkey] at hok
                cases hok
                exact ⟨keys, hkeys, List.mem_of_find?_eq_some hkey⟩

/-- A digest field that is bound is the digest of the body. -/
theorem boundContentDigest_eq_ok {req : SignedRequest} {raw : String}
    (hok : req.boundContentDigest V = .ok raw) :
    req.contentDigest = some raw ∧
      parseSha256ContentDigest V raw = .ok (V.sha256 req.body) := by
  unfold SignedRequest.boundContentDigest at hok
  cases hdigest : req.contentDigest with
  | none =>
      simp only [hdigest] at hok
      cases hok
  | some text =>
      simp only [hdigest] at hok
      split at hok
      · cases hok
      · rcases bind_eq_ok.mp hok with ⟨claimed, hclaimed, hok⟩
        split at hok
        · cases hok
        · cases hok
          simp_all

/-- What a base over a request draws on. -/
structure Coverable (V : Verifier) (req : SignedRequest)
    (signatureKey : String) (p : Presented)
    (fields : List (String × String)) : Prop where
  signatureKey : fields.lookup "signature-key" = some signatureKey
  digest : "content-digest" ∈ p.components → ∃ raw,
    fields.lookup "content-digest" = some raw ∧
      req.contentDigest = some raw ∧
      parseSha256ContentDigest V raw = .ok (V.sha256 req.body)

theorem coverable_eq_ok {req : SignedRequest} {signatureKey : String}
    {p : Presented} {extra fields : List (String × String)}
    (hok : req.coverable V signatureKey p extra = .ok fields) :
    Coverable V req signatureKey p fields := by
  unfold SignedRequest.coverable at hok
  split at hok
  · rcases bind_eq_ok.mp hok with ⟨raw, hraw, hok⟩
    cases hok
    exact ⟨by simp, fun _ => ⟨raw, by simp [List.lookup_cons],
      boundContentDigest_eq_ok hraw⟩⟩
  · cases hok
    exact ⟨by simp, fun hmem => absurd hmem (by simp_all)⟩

/-! ## What an accepted request was verified with -/

/-- The base of a presentation over a request verifies under a key. -/
structure Verified (V : Verifier) (req : SignedRequest)
    (headers : SignatureHeaders) (p : Presented) (key : VerifyingKey)
    (signature : Signature) : Prop where
  carried : req.signatureHeaders = .ok headers
  read :
    HttpSig.presented V.codec label headers.input headers.signature = .ok p
  covered : p.components = requiredComponents req.method req.body
  bytes : toSignature p.signature = some signature
  signed : ∃ fields base, Coverable V req headers.key p fields ∧
    HttpSig.signatureBase (req.message fields) p = .ok base ∧
    V.verifyStrict key (ByteText.encode base) signature = true

theorem authenticate_eq_ok {req : SignedRequest} {cfg : Config} {now : ℤ}
    {agent : String} (hok : authenticate V req cfg now = .ok agent) :
    ∃ headers p token signature,
      bound V cfg (RustText.trim headers.key) = .ok token ∧
        token.agent = agent ∧
        Verified V req headers p token.key signature := by
  unfold authenticate at hok
  split at hok
  · cases hok
  · rcases bind_eq_ok.mp hok with ⟨headers, hheaders, hok⟩
    rcases bind_eq_ok.mp hok with ⟨_, _, hok⟩
    rcases bind_eq_ok.mp hok with ⟨p, hp, hok⟩
    rcases bind_eq_ok.mp hok with ⟨token, htoken, hok⟩
    rcases bind_eq_ok.mp hok with ⟨_, _, hok⟩
    rcases bind_eq_ok.mp hok with ⟨base, hbase, hok⟩
    rcases bind_eq_ok.mp hbase with ⟨fields, hfields, hbase⟩
    cases hbytes : toSignature p.signature with
    | none =>
        simp only [hbytes] at hok
        cases hok
    | some signature =>
        simp only [hbytes] at hok
        by_cases hverify : V.verifyStrict token.key (ByteText.encode base)
            signature = true
        · rw [hverify] at hok
          cases hok
          exact ⟨headers, p, token, signature, htoken, rfl, hheaders,
            (presented_eq_ok hp).1, (presented_eq_ok hp).2, hbytes, fields,
            base, coverable_eq_ok hfields, hbase, hverify⟩
        · rw [Bool.not_eq_true] at hverify
          rw [hverify] at hok
          cases hok

/-! ## What is accepted -/

theorem split_ofList {chars first second third : List Char}
    (hparts : chars.splitOn '.' = [first, second, third]) :
    Jose.split (String.ofList chars) =
      some (String.ofList first, String.ofList second,
        String.ofList third) := by
  rw [Jose.split, String.toList_ofList, hparts]
  rfl

theorem trim_ofList {chars : List Char}
    (hchars : RustText.trimChars chars = chars) :
    RustText.trim (String.ofList chars) = String.ofList chars := by
  rw [RustText.trim, String.toList_ofList, hchars]

theorem utf8ByteSize_ofList {chars : List Char}
    (hvisible : chars.all visible = true) :
    (String.ofList chars).utf8ByteSize = chars.length := by
  rw [utf8ByteSize_visible (by rwa [String.toList_ofList]),
    String.toList_ofList]

theorem signable_of_visible {chars : List Char}
    (hvisible : chars.all visible = true) :
    HttpSig.signable (String.ofList chars) = true := by
  rw [List.all_eq_true] at hvisible
  rw [HttpSig.signable, String.toList_ofList, Bool.and_eq_true,
    Bool.not_eq_true', List.all_eq_true]
  constructor
  · have hmem : '\n' ∉ chars := by
      intro hmem
      exact absurd (hvisible _ hmem) (by decide)
    simpa using hmem
  · intro c hc
    exact decide_eq_true (visible_lt (hvisible c hc))

/-- A token in order that confirms a key of its agent's. -/
theorem bound_of_claims {cfg : Config} {text issuer agent : String}
    {parts : String × String × String} {header : Header} {claims : Serde.Map}
    {keys : List VerifyingKey} {key : VerifyingKey}
    (hparts : Jose.split text = some parts)
    (hheader : Jose.decodeJson V (readHeader (Serde.docSource V.floats))
      parts.1 "token header" = .ok header)
    (hchecked : checkHeader header = .ok ())
    (hclaims : Jose.decodeMap V parts.2.1 "token claims" = .ok claims)
    (hsub : Jose.getStr claims "sub" = some agent)
    (hiss : Jose.getStr claims "iss" = some issuer)
    (haud : Jose.audienceContains (claims.get "aud") cfg.audience = true)
    (hkeys : cfg.agents.lookup agent = some keys)
    (hconfirmed : confirmedKey V claims = .ok key) (hkey : key ∈ keys) :
    bound V cfg text = .ok { agent, key, claims } := by
  have hfind : keys.find? (fun other => other == key) = some key := by
    cases hfound : keys.find? fun other => other == key with
    | none =>
        have hnone := List.find?_eq_none.mp hfound key hkey
        simp at hnone
    | some other =>
        have hsame := List.find?_some hfound
        rw [beq_iff_eq.mp hsame]
  rw [bound, hparts]
  simp only [hheader, hchecked, hclaims, requireStr, hsub, hiss, haud, hkeys,
    hconfirmed, hfind, orInvalid, Except.mapError, bind, Except.bind]
  rfl

/-- A request in order whose base verifies under the key of its token. -/
theorem authenticate_of_verified {req : SignedRequest} {cfg : Config}
    {now : ℤ} {headers : SignatureHeaders} {p : Presented} {token : Bound}
    {base : String} {signature : Signature} (hagents : cfg.agents ≠ [])
    (hheaders : req.signatureHeaders = .ok headers)
    (hsent : eqIgnoreAsciiCase req.authority cfg.authority = true)
    (hp : req.presented V headers now = .ok p)
    (htoken : bound V cfg (RustText.trim headers.key) = .ok token)
    (hexp : checkExpiry token.claims now = .ok ())
    (hbase : req.signatureBase V headers.key p = .ok base)
    (hbytes : toSignature p.signature = some signature)
    (hverify : V.verifyStrict token.key (ByteText.encode base) signature =
      true) :
    authenticate V req cfg now = .ok token.agent := by
  have hsome : ¬ cfg.agents.isEmpty = true := by
    rwa [List.isEmpty_iff]
  rw [authenticate, if_neg hsome]
  simp only [hheaders, SignedRequest.sentTo, hsent, hp, htoken, hexp, hbase,
    hbytes, hverify, bind, Except.bind]
  rfl

/-- The base of a bodied request, once its digest is bound. -/
theorem signatureBase_of_digest {req : SignedRequest} {signatureKey : String}
    {p : Presented} {raw base : String}
    (hcovered : p.components.contains "content-digest" = true)
    (hdigest : req.boundContentDigest V = .ok raw)
    (hbase : HttpSig.signatureBase
      (req.message [("signature-key", signatureKey), ("content-digest", raw)])
        p = .ok base) :
    req.signatureBase V signatureKey p = .ok base := by
  rw [SignedRequest.signatureBase, SignedRequest.signatureBaseWith,
    SignedRequest.coverable, if_pos hcovered, hdigest]
  exact hbase

theorem authenticated_of_agent {cfg : Config} {req : Request} {body : Bytes}
    {now : UInt64} {fields : SignedRequest} {agent : String}
    (hfields : fromRequest V req body = .ok fields)
    (hagent : authenticate V fields cfg now.toInt64.toInt = .ok agent) :
    cfg.authenticate V req now body = .ok (cfg.caller agent) := by
  rw [Config.authenticate, hfields]
  simp only [bind, Except.bind, hagent]

/-! ## Two requests -/

theorem value_method {m : Message} {value : String}
    (hvalue : m.value "@method" = .ok value) : m.method = value :=
  Except.ok.inj (HttpSig.value_eq_ok hvalue).1

theorem value_authority {m : Message} {value : String}
    (hvalue : m.value "@authority" = .ok value) : m.authority = value :=
  Except.ok.inj (HttpSig.value_eq_ok hvalue).1

theorem value_path {m : Message} {value : String}
    (hvalue : m.value "@path" = .ok value) : m.path = value :=
  Except.ok.inj (HttpSig.value_eq_ok hvalue).1

theorem value_field {m : Message} {name value : String}
    (hderived : name.toList.head? ≠ some '@')
    (hvalue : m.value name = .ok value) :
    m.fields.lookup name = some value := by
  have hdraw := (HttpSig.value_eq_ok hvalue).1
  have hnot : ∀ derived : String, derived.toList.head? = some '@' →
      name ≠ derived := fun derived hhead heq => hderived (heq ▸ hhead)
  unfold Message.draw at hdraw
  rw [if_neg (hnot "@method" rfl), if_neg (hnot "@authority" rfl),
    if_neg (hnot "@path" rfl), if_neg hderived] at hdraw
  cases hfield : m.fields.lookup name with
  | none =>
      simp only [hfield] at hdraw
      cases hdraw
  | some text =>
      simp only [hfield] at hdraw
      rw [Except.ok.inj hdraw]

theorem requestLine_required (method : String) (body : Bytes) :
    ["@method", "@authority", "@path", "signature-key"] ⊆
      requiredComponents method body := by
  unfold requiredComponents
  split <;> decide

/-- A request that need not cover a digest has no body. -/
theorem digest_required {method : String} {body : Bytes}
    (hbody : body ≠ []) :
    "content-digest" ∈ requiredComponents method body := by
  have hsome : (eqIgnoreAsciiCase method "POST" || !body.isEmpty) = true := by
    cases body with
    | nil => exact absurd rfl hbody
    | cons first rest => simp
  rw [requiredComponents, if_pos hsome]
  decide

/-- What the RFC says of a serialized list: its text has no newline. -/
def OneLine (S : Sfv.Codec) : Prop :=
  ∀ list text, S.serialize list = some text → '\n' ∉ text.toList

/-- A key and a signature verify at most one message. -/
def OneMessage (V : Verifier) : Prop :=
  ∀ key signature message message',
    V.verifyStrict key message signature = true →
      V.verifyStrict key message' signature = true → message = message'

theorem readable_of_presented {S : Sfv.Codec} (hline : OneLine S)
    {input signature : String} {p : Presented}
    (hp : HttpSig.presented S label input signature = .ok p) :
    p.Readable := by
  rcases HttpSig.presentedUnder_eq_ok hp with ⟨list, hread⟩
  exact ⟨hread.valid, hline _ _ hread.params⟩

variable {req req' : SignedRequest} {headers headers' : SignatureHeaders}
  {p p' : Presented} {key : VerifyingKey} {signature : Signature}

/-- The same digest is bound to two bodies, or both are empty. -/
theorem body_eq_of_digest {fields fields' : List (String × String)}
    (hcomponents : p.components = p'.components)
    (hcovered : p.components = requiredComponents req.method req.body)
    (hcovered' : p'.components = requiredComponents req'.method req'.body)
    (hfields : Coverable V req headers.key p fields)
    (hfields' : Coverable V req' headers'.key p' fields')
    (hagree : "content-digest" ∈ p.components →
      fields.lookup "content-digest" = fields'.lookup "content-digest")
    (hhash : V.sha256 req.body = V.sha256 req'.body → req.body = req'.body) :
    req.body = req'.body := by
  by_cases hdigest : "content-digest" ∈ p.components
  · rcases hfields.digest hdigest with ⟨raw, hraw, _, hparse⟩
    rcases hfields'.digest (hcomponents ▸ hdigest) with
      ⟨raw', hraw', _, hparse'⟩
    have hsame : raw = raw' := by
      have hlookup := hagree hdigest
      rw [hraw, hraw'] at hlookup
      exact Option.some.inj hlookup
    rw [hsame, hparse'] at hparse
    exact hhash (Except.ok.inj hparse).symm
  · have hempty : req.body = [] := by
      by_contra hbody
      exact hdigest (hcovered ▸ digest_required hbody)
    have hempty' : req'.body = [] := by
      by_contra hbody
      exact hdigest (hcomponents ▸ hcovered' ▸ digest_required hbody)
    rw [hempty, hempty']

/-- One signature under one key is over one request. -/
theorem verified_agree (hone : OneMessage V) (hline : OneLine V.codec)
    (hhash : V.sha256 req.body = V.sha256 req'.body → req.body = req'.body)
    (hverified : Verified V req headers p key signature)
    (hverified' : Verified V req' headers' p' key signature) :
    req.method = req'.method ∧ req.path = req'.path ∧
      eqIgnoreAsciiCase req.authority req'.authority = true ∧
      req.body = req'.body := by
  rcases hverified.signed with ⟨fields, base, hfields, hbase, hverify⟩
  rcases hverified'.signed with ⟨fields', base', hfields', hbase', hverify'⟩
  have hbases : base = base' :=
    ByteText.encode_injective (hone _ _ _ _ hverify hverify')
  subst hbases
  rcases HttpSig.base_inj (readable_of_presented hline hverified.read)
    (readable_of_presented hline hverified'.read) hbase hbase' with
    ⟨components, hdraws, hdraws', _⟩
  have hcomponents : p.components = p'.components := by
    rw [← hdraws.names, hdraws'.names]
  have hagree := hdraws.agree hdraws'
  have hline' := requestLine_required req.method req.body
  rw [← hverified.covered] at hline'
  rcases hagree "@method" (hline' (by simp)) with ⟨method, hm, hm'⟩
  rcases hagree "@authority" (hline' (by simp)) with ⟨authority, ha, ha'⟩
  rcases hagree "@path" (hline' (by simp)) with ⟨path, hpath, hpath'⟩
  refine ⟨?_, ?_, ?_, ?_⟩
  · exact (value_method hm).trans (value_method hm').symm
  · exact (value_path hpath).trans (value_path hpath').symm
  · have hlower := (value_authority ha).trans (value_authority ha').symm
    rw [eqIgnoreAsciiCase, beq_iff_eq]
    exact hlower
  · apply body_eq_of_digest hcomponents hverified.covered
      hverified'.covered hfields hfields' _ hhash
    intro hdigest
    rcases hagree "content-digest" hdigest with ⟨raw, hraw, hraw'⟩
    exact (value_field (by decide) hraw).trans
      (value_field (by decide) hraw').symm

/-! ## The caller of a request -/

/-- A request that verifies under a key of an agent, over exactly the
components that its method and body require. -/
structure SignedFor (V : Verifier) (cfg : Config) (req : Request)
    (body : Bytes) (agent : String) (key : VerifyingKey)
    (signature : Signature) : Prop where
  configured : ∃ keys, cfg.agents.lookup agent = some keys ∧ key ∈ keys
  signed : ∃ fields headers p, fromRequest V req body = .ok fields ∧
    p.components = requiredComponents req.method body ∧
    Verified V fields headers p key signature

@[simp] theorem caller_subject (cfg : Config) (agent : String) :
    (cfg.caller agent).subject = agent := by
  unfold Config.caller
  dsimp only
  split <;> rfl

theorem authenticated_eq_ok {cfg : Config} {req : Request} {body : Bytes}
    {now : UInt64} {who : Authenticated}
    (hok : cfg.authenticate V req now body = .ok who) :
    who = cfg.caller who.subject ∧
      ∃ fields, fromRequest V req body = .ok fields ∧
        authenticate V fields cfg now.toInt64.toInt = .ok who.subject := by
  unfold Config.authenticate at hok
  rcases bind_eq_ok.mp hok with ⟨fields, hfields, hok⟩
  rcases bind_eq_ok.mp hok with ⟨agent, hagent, hok⟩
  cases hok
  rw [caller_subject]
  exact ⟨rfl, fields, hfields, hagent⟩

theorem signedFor_of_authenticated {cfg : Config} {req : Request}
    {body : Bytes} {now : UInt64} {who : Authenticated}
    (hok : cfg.authenticate V req now body = .ok who) :
    ∃ key signature, SignedFor V cfg req body who.subject key signature := by
  rcases authenticated_eq_ok hok with ⟨_, fields, hfields, hagent⟩
  rcases authenticate_eq_ok hagent with
    ⟨headers, p, token, signature, htoken, hsubject, hverified⟩
  rcases fromRequest_eq_ok hfields with ⟨_, _, _, _, _, hmethod, _, hbody⟩
  have hcovered := hverified.covered
  rw [hmethod, hbody] at hcovered
  rw [← hsubject]
  exact ⟨token.key, signature, bound_eq_ok htoken, fields, headers, p,
    hfields, hcovered, hverified⟩

/-- What two requests share that one signature is over. -/
structure SameRequest (V : Verifier) (req req' : Request)
    (body body' : Bytes) : Prop where
  method : req.method = req'.method
  path : req.path = req'.path
  authority : ∃ authority authority',
    HttpSig.authority V req.target req.headers = .ok authority ∧
      HttpSig.authority V req'.target req'.headers = .ok authority' ∧
      eqIgnoreAsciiCase authority authority' = true
  body : body = body'

theorem SignedFor.same {cfg : Config} {req req' : Request}
    {body body' : Bytes} {agent agent' : String} {key : VerifyingKey}
    {signature : Signature} (hone : OneMessage V) (hline : OneLine V.codec)
    (hhash : V.sha256 body = V.sha256 body' → body = body')
    (hsigned : SignedFor V cfg req body agent key signature)
    (hsigned' : SignedFor V cfg req' body' agent' key signature) :
    SameRequest V req req' body body' := by
  rcases hsigned.signed with ⟨fields, headers, p, hfields, _, hverified⟩
  rcases hsigned'.signed with ⟨fields', headers', p', hfields', _, hverified'⟩
  rcases fromRequest_eq_ok hfields with
    ⟨hauthority, _, _, _, _, hmethod, hpath, hbody⟩
  rcases fromRequest_eq_ok hfields' with
    ⟨hauthority', _, _, _, _, hmethod', hpath', hbody'⟩
  have hagree := verified_agree hone hline
    (by rw [hbody, hbody']; exact hhash) hverified hverified'
  exact
    { method := by rw [← hmethod, hagree.1, hmethod']
      path := by rw [← hpath, hagree.2.1, hpath']
      authority := ⟨fields.authority, fields'.authority, hauthority,
        hauthority', hagree.2.2.1⟩
      body := by rw [← hbody, hagree.2.2.2, hbody'] }

/-- The key and the signature are chosen by three fields alone. -/
theorem signedFor_of_same_fields {cfg : Config} {req req' : Request}
    {body body' : Bytes} {now now' : UInt64} {who who' : Authenticated}
    (hkey : HttpSig.field req.headers "signature-key" =
      HttpSig.field req'.headers "signature-key")
    (hinput : HttpSig.field req.headers "signature-input" =
      HttpSig.field req'.headers "signature-input")
    (hsignature : HttpSig.field req.headers "signature" =
      HttpSig.field req'.headers "signature")
    (hok : cfg.authenticate V req now body = .ok who)
    (hok' : cfg.authenticate V req' now' body' = .ok who') :
    who.subject = who'.subject ∧ ∃ key signature,
      SignedFor V cfg req body who.subject key signature ∧
        SignedFor V cfg req' body' who'.subject key signature := by
  rcases authenticated_eq_ok hok with ⟨_, fields, hfields, hagent⟩
  rcases authenticated_eq_ok hok' with ⟨_, fields', hfields', hagent'⟩
  rcases authenticate_eq_ok hagent with
    ⟨headers, p, token, signature, htoken, hsubject, hverified⟩
  rcases authenticate_eq_ok hagent' with
    ⟨headers', p', token', signature', htoken', hsubject', hverified'⟩
  rcases fromRequest_eq_ok hfields with
    ⟨_, hk, hi, hs, _, hmethod, _, hbody⟩
  rcases fromRequest_eq_ok hfields' with
    ⟨_, hk', hi', hs', _, hmethod', _, hbody'⟩
  have hcarried := signatureHeaders_eq_ok hverified.carried
  have hcarried' := signatureHeaders_eq_ok hverified'.carried
  rw [hcarried.1] at hk
  rw [hcarried'.1, ← hkey, hk] at hk'
  rw [hcarried.2.1] at hi
  rw [hcarried'.2.1, ← hinput, hi] at hi'
  rw [hcarried.2.2] at hs
  rw [hcarried'.2.2, ← hsignature, hs] at hs'
  have hkeys : headers.key = headers'.key :=
    Option.some.inj (Except.ok.inj hk')
  have hinputs : headers.input = headers'.input :=
    Option.some.inj (Except.ok.inj hi')
  have hsignatures : headers.signature = headers'.signature :=
    Option.some.inj (Except.ok.inj hs')
  have htokens : token = token' := by
    rw [hkeys, htoken'] at htoken
    exact (Except.ok.inj htoken).symm
  subst htokens
  have hp : p = p' := by
    have hread := hverified.read
    rw [hinputs, hsignatures, hverified'.read] at hread
    exact (Except.ok.inj hread).symm
  subst hp
  have hbytes : signature = signature' := by
    have hread := hverified.bytes
    rw [hverified'.bytes] at hread
    exact (Option.some.inj hread).symm
  subst hbytes
  have hcovered := hverified.covered
  rw [hmethod, hbody] at hcovered
  have hcovered' := hverified'.covered
  rw [hmethod', hbody'] at hcovered'
  rw [← hsubject, ← hsubject']
  exact ⟨rfl, token.key, signature,
    ⟨bound_eq_ok htoken, fields, headers, p, hfields, hcovered, hverified⟩,
    ⟨bound_eq_ok htoken', fields', headers', p, hfields', hcovered',
      hverified'⟩⟩

/-- A signed request is bound to what it covers.  It is signed for its agent
over exactly the required components; one signature is over one request; and
requests with the same three signature fields are one request. -/
theorem signed_request_binds (V : Verifier) (cfg : Config)
    (hone : OneMessage V) (hline : OneLine V.codec) :
    (∀ req body now who, cfg.authenticate V req now body = .ok who →
      ∃ key signature,
        SignedFor V cfg req body who.subject key signature) ∧
    (∀ req req' body body' agent agent' key signature,
      (V.sha256 body = V.sha256 body' → body = body') →
      SignedFor V cfg req body agent key signature →
      SignedFor V cfg req' body' agent' key signature →
        SameRequest V req req' body body') ∧
    ∀ req req' body body' now now' who who',
      (V.sha256 body = V.sha256 body' → body = body') →
      HttpSig.field req.headers "signature-key" =
        HttpSig.field req'.headers "signature-key" →
      HttpSig.field req.headers "signature-input" =
        HttpSig.field req'.headers "signature-input" →
      HttpSig.field req.headers "signature" =
        HttpSig.field req'.headers "signature" →
      cfg.authenticate V req now body = .ok who →
      cfg.authenticate V req' now' body' = .ok who' →
        SameRequest V req req' body body' ∧ who = who' := by
  refine ⟨fun req body now who => signedFor_of_authenticated, ?_, ?_⟩
  · intro req req' body body' agent agent' key signature hhash hsigned hsigned'
    exact hsigned.same hone hline hhash hsigned'
  · intro req req' body body' now now' who who' hhash hkey hinput hsignature
      hok hok'
    rcases signedFor_of_same_fields hkey hinput hsignature hok hok' with
      ⟨hsubject, key, signature, hsigned, hsigned'⟩
    refine ⟨hsigned.same hone hline hhash hsigned', ?_⟩
    rw [(authenticated_eq_ok hok).1, (authenticated_eq_ok hok').1, hsubject]

/-! ## A request -/

/-- A text by its code points. -/
def codes (points : List Nat) : List Char :=
  points.map Char.ofNat

def sampleKeyBytes : Bytes :=
  [215, 90, 152, 1, 130, 177, 10, 183, 213, 75, 254, 211, 201, 100, 7, 58,
    14, 225, 114, 243, 218, 166, 35, 37, 175, 2, 26, 104, 247, 7, 81, 26]

def sampleVerifyingKey : VerifyingKey :=
  ⟨sampleKeyBytes.toArray, rfl⟩

def sampleHeader : Serde.Map :=
  [("typ", .string "dpop-bound+jwt"), ("alg", .string "EdDSA")]

def sampleHeader64 : List Char :=
  codes
    [101, 121, 74, 48, 101, 88, 65, 105, 79, 105, 74, 107, 99, 71, 57, 119, 76,
    87, 74, 118, 100, 87, 53, 107, 75, 50, 112, 51, 100, 67, 73, 115, 73, 109,
    70, 115, 90, 121, 73, 54, 73, 107, 86, 107, 82, 70, 78, 66, 73, 110, 48]

def sampleKeyChars : List Char :=
  codes
    [49, 49, 113, 89, 65, 89, 75, 120, 67, 114, 102, 86, 83, 95, 55, 84, 121,
    87, 81, 72, 79, 103, 55, 104, 99, 118, 80, 97, 112, 105, 77, 108, 114, 119,
    73, 97, 97, 80, 99, 72, 85, 82, 111]

def sampleKeyText : String :=
  String.ofList sampleKeyChars

def sampleClaims : Serde.Map :=
  [("sub", .string "agent-1"), ("iss", .string "i"), ("aud", .string "pdp"),
    ("exp", .number (.posInt 1110)),
    ("cnf", .object [("jwk", .object
      [("kty", .string "OKP"), ("crv", .string "Ed25519"),
        ("x", .string sampleKeyText)])])]

def sampleClaims64 : List Char :=
  codes
    [101, 121, 74, 122, 100, 87, 73, 105, 79, 105, 74, 104, 90, 50, 86, 117,
    100, 67, 48, 120, 73, 105, 119, 105, 97, 88, 78, 122, 73, 106, 111, 105, 97,
    83, 73, 115, 73, 109, 70, 49, 90, 67, 73, 54, 73, 110, 66, 107, 99, 67, 73,
    115, 73, 109, 86, 52, 99, 67, 73, 54, 77, 84, 69, 120, 77, 67, 119, 105, 89,
    50, 53, 109, 73, 106, 112, 55, 73, 109, 112, 51, 97, 121, 73, 54, 101, 121,
    74, 114, 100, 72, 107, 105, 79, 105, 74, 80, 83, 49, 65, 105, 76, 67, 74,
    106, 99, 110, 89, 105, 79, 105, 74, 70, 90, 68, 73, 49, 78, 84, 69, 53, 73,
    105, 119, 105, 101, 67, 73, 54, 73, 106, 69, 120, 99, 86, 108, 66, 87, 85,
    116, 52, 81, 51, 74, 109, 86, 108, 78, 102, 78, 49, 82, 53, 86, 49, 70, 73,
    84, 50, 99, 51, 97, 71, 78, 50, 85, 71, 70, 119, 97, 85, 49, 115, 99, 110,
    100, 74, 89, 87, 70, 81, 89, 48, 104, 86, 85, 109, 56, 105, 102, 88, 49, 57]

def sampleToken : List Char :=
  sampleHeader64 ++ '.' :: (sampleClaims64 ++ ['.'])

def sampleDigestBytes : Bytes :=
  [68, 19, 111, 163, 85, 179, 103, 138, 17, 70, 173, 22, 247, 232, 100, 158,
    148, 251, 79, 194, 31, 231, 126, 131, 16, 192, 96, 246, 28, 170, 255, 138]

def sampleDigestField : List Char :=
  -- sha-256=:RBNvo1WzZ4oRRq0W9+hknpT7T8If536DEMBg9hyq/4o=:
  codes
    [115, 104, 97, 45, 50, 53, 54, 61, 58, 82, 66, 78, 118, 111, 49, 87, 122,
    90, 52, 111, 82, 82, 113, 48, 87, 57, 43, 104, 107, 110, 112, 84, 55, 84,
    56, 73, 102, 53, 51, 54, 68, 69, 77, 66, 103, 57, 104, 121, 113, 47, 52,
    111, 61, 58]

def sampleSignatureBytes : Bytes :=
  [106, 86, 4, 6, 121, 202, 91, 200, 44, 97, 60, 54, 141, 15, 39, 26, 98,
    116, 229, 107, 164, 196, 246, 95, 146, 103, 55, 17, 217, 28, 94, 190,
    185, 99, 202, 49, 115, 234, 125, 82, 156, 169, 165, 7, 138, 238, 85, 85,
    220, 233, 134, 255, 149, 192, 117, 89, 36, 247, 207, 11, 51, 57, 42, 1]

def sampleSignatureField : List Char :=
  codes
    [115, 105, 103, 49, 61, 58, 97, 108, 89, 69, 66, 110, 110, 75, 87, 56, 103,
    115, 89, 84, 119, 50, 106, 81, 56, 110, 71, 109, 74, 48, 53, 87, 117, 107,
    120, 80, 90, 102, 107, 109, 99, 51, 69, 100, 107, 99, 88, 114, 54, 53, 89,
    56, 111, 120, 99, 43, 112, 57, 85, 112, 121, 112, 112, 81, 101, 75, 55, 108,
    86, 86, 51, 79, 109, 71, 47, 53, 88, 65, 100, 86, 107, 107, 57, 56, 56, 76,
    77, 122, 107, 113, 65, 81, 61, 61, 58]

def sampleParams : List Char :=
  -- ("@method" "@authority" "@path" "content-digest"
  -- "signature-key");created=1000
  codes
    [40, 34, 64, 109, 101, 116, 104, 111, 100, 34, 32, 34, 64, 97, 117, 116,
    104, 111, 114, 105, 116, 121, 34, 32, 34, 64, 112, 97, 116, 104, 34, 32, 34,
    99, 111, 110, 116, 101, 110, 116, 45, 100, 105, 103, 101, 115, 116, 34, 32,
    34, 115, 105, 103, 110, 97, 116, 117, 114, 101, 45, 107, 101, 121, 34, 41,
    59, 99, 114, 101, 97, 116, 101, 100, 61, 49, 48, 48, 48]

def sampleInputField : List Char :=
  "sig1=".toList ++ sampleParams

def sampleCovered : Sfv.InnerList where
  items := bodiedComponents.map fun name => ⟨.string name, []⟩
  params := [("created", .integer 1000)]

def sampleRequestCodec : Sfv.Codec where
  keys _ raw :=
    if raw.toList = sampleInputField ∨ raw.toList = sampleSignatureField then
      some ["sig1"]
    else none
  parse _ raw :=
    if raw.toList = sampleInputField then
      some [("sig1", .innerList sampleCovered)]
    else if raw.toList = sampleSignatureField then
      some [("sig1", .item ⟨.byteSequence sampleSignatureBytes, []⟩)]
    else none
  serialize list :=
    if list = sampleCovered then some (String.ofList sampleParams) else none

def sampleComponents : List (String × String) :=
  [("@method", "POST"), ("@authority", "pdp.example"), ("@path", "/access"),
    ("content-digest", String.ofList sampleDigestField),
    ("signature-key", String.ofList sampleToken)]

def sampleBytes (texts : List (List Char × Bytes)) (text : String) :
    Option Bytes :=
  texts.lookup text.toList

def sampleBody : Bytes :=
  ByteText.encode "{}"

/-- The text of an object. -/
def membersText (members : Serde.Map) : Bytes :=
  Identity.jsonText ((Serde.Value.object members).toDoc sampleFloats)

theorem sampleDigest_length (bytes : Bytes) :
    (sampleDigest bytes).length = 32 := by
  simp [sampleDigest]

def sampleVerifier : Verifier where
  floats := sampleFloats
  codec := sampleRequestCodec
  parseAuthority bytes :=
    (ByteText.decode bytes).map fun host => { host, port := none }
  decodeUrl := sampleBytes
    [(sampleHeader64, membersText sampleHeader),
      (sampleClaims64, membersText sampleClaims),
      (sampleKeyText.toList, sampleKeyBytes)]
  decodeBase64 := sampleBytes
    [((sampleDigestField.drop 9).dropLast, sampleDigestBytes)]
  sha256 bytes :=
    if bytes = sampleBody then sampleDigestBytes else sampleDigest bytes
  sha256_length bytes := by
    split
    · rfl
    · exact sampleDigest_length bytes
  validPoint key := key == sampleVerifyingKey
  verifyStrict key message signature :=
    key == sampleVerifyingKey &&
      message == ByteText.encode (String.ofList
        (HttpSig.baseText sampleComponents sampleParams)) &&
      signature.toList == sampleSignatureBytes

def sampleConfig : Config where
  agents := [("agent-1", [sampleVerifyingKey])]
  audience := "pdp"
  authority := "pdp.example"
  pep := []

/-- What the texts of the request are. -/
theorem sample_texts :
    (∀ chars ∈ [sampleToken, sampleInputField, sampleSignatureField,
        sampleDigestField],
      chars.all visible = true ∧ RustText.trimChars chars = chars ∧
        chars.length ≤ maxTokenBytes) ∧
      [sampleHeader64, sampleClaims64, sampleKeyChars].Pairwise (· ≠ ·) ∧
      sampleSignatureField ≠ sampleInputField ∧
      sampleToken.splitOn '.' = [sampleHeader64, sampleClaims64, []] ∧
      (stripFront "sha-256=:".toList sampleDigestField).bind
        (stripBack [':']) = some (sampleDigestField.drop 9).dropLast ∧
      HttpSig.coveredComponents [] sampleCovered.items =
        .ok bodiedComponents ∧
      (∀ text ∈ ["POST", "pdp.example", "/access"],
        HttpSig.signable text = true) ∧
      '\n' ∉ sampleParams := by
  decide +kernel

theorem sample_visible {chars : List Char}
    (hmem : chars ∈ [sampleToken, sampleInputField, sampleSignatureField,
      sampleDigestField]) :
    chars.all visible = true :=
  (sample_texts.1 chars hmem).1

theorem sample_trimmed {chars : List Char}
    (hmem : chars ∈ [sampleToken, sampleInputField, sampleSignatureField,
      sampleDigestField]) :
    RustText.trimChars chars = chars :=
  (sample_texts.1 chars hmem).2.1

theorem sample_short {chars : List Char}
    (hmem : chars ∈ [sampleToken, sampleInputField, sampleSignatureField,
      sampleDigestField]) :
    (String.ofList chars).utf8ByteSize ≤ maxTokenBytes := by
  rw [utf8ByteSize_ofList (sample_visible hmem)]
  exact (sample_texts.1 chars hmem).2.2

/-- A request, under one spelling of the host. -/
def sampleRequest (host : String) : Request where
  method := "POST"
  target := none
  path := "/access"
  headers :=
    [("host", ByteText.encode host),
      ("signature-key", ByteText.encode (String.ofList sampleToken)),
      ("signature-input", ByteText.encode (String.ofList sampleInputField)),
      ("signature", ByteText.encode (String.ofList sampleSignatureField)),
      ("content-digest",
        ByteText.encode (String.ofList sampleDigestField))]

def sampleFields : SignedRequest where
  method := "POST"
  authority := "pdp.example"
  path := "/access"
  signatureKey := some (String.ofList sampleToken)
  signatureInput := some (String.ofList sampleInputField)
  signature := some (String.ofList sampleSignatureField)
  contentDigest := some (String.ofList sampleDigestField)
  body := sampleBody

theorem sample_field {headers : List (String × Bytes)} {name : String}
    {chars : List Char}
    (hline : headerLines headers name =
      [ByteText.encode (String.ofList chars)])
    (hvisible : chars.all visible = true)
    (htrim : RustText.trimChars chars = chars) :
    HttpSig.field headers name = .ok (some (String.ofList chars)) :=
  HttpSig.field_of_line hline (by rwa [String.toList_ofList])
    (by rwa [String.toList_ofList])

theorem sample_authority {host : String}
    (hhost : lowerAscii host = "pdp.example") :
    HttpSig.authority sampleVerifier none (sampleRequest host).headers =
      .ok "pdp.example" := by
  have hline : headerLines (sampleRequest host).headers "host" =
      [ByteText.encode host] := rfl
  unfold HttpSig.authority
  simp only [hline, sampleVerifier, ByteText.decode_encode, Option.map_some,
    bind, Except.bind, hhost]

/-- The signature fields do not depend on the host. -/
theorem sample_headerFields (host : String) :
    HttpSig.field (sampleRequest host).headers "signature-key" =
        .ok (some (String.ofList sampleToken)) ∧
      HttpSig.field (sampleRequest host).headers "signature-input" =
        .ok (some (String.ofList sampleInputField)) ∧
      HttpSig.field (sampleRequest host).headers "signature" =
        .ok (some (String.ofList sampleSignatureField)) ∧
      HttpSig.field (sampleRequest host).headers "content-digest" =
        .ok (some (String.ofList sampleDigestField)) := by
  refine ⟨?_, ?_, ?_, ?_⟩
  · exact sample_field (by simp [headerLines, sampleRequest])
      (sample_visible (by simp)) (sample_trimmed (by simp))
  · exact sample_field (by simp [headerLines, sampleRequest])
      (sample_visible (by simp)) (sample_trimmed (by simp))
  · exact sample_field (by simp [headerLines, sampleRequest])
      (sample_visible (by simp)) (sample_trimmed (by simp))
  · exact sample_field (by simp [headerLines, sampleRequest])
      (sample_visible (by simp)) (sample_trimmed (by simp))

theorem sample_fromRequest {host : String}
    (hhost : lowerAscii host = "pdp.example") :
    fromRequest sampleVerifier (sampleRequest host) sampleBody =
      .ok sampleFields := by
  rcases sample_headerFields host with ⟨hkey, hinput, hsignature, hdigest⟩
  have htarget : (sampleRequest host).target = none := rfl
  rw [fromRequest, htarget, sample_authority hhost, hkey, hinput, hsignature,
    hdigest]
  rfl

def sampleHeaders : SignatureHeaders where
  key := String.ofList sampleToken
  input := String.ofList sampleInputField
  signature := String.ofList sampleSignatureField

theorem sample_signatureHeaders :
    sampleFields.signatureHeaders = .ok sampleHeaders := by
  have hkey : ¬ maxTokenBytes < (String.ofList sampleToken).utf8ByteSize :=
    not_lt.mpr (sample_short (by simp))
  have hinput : ¬ maxTokenBytes <
      (String.ofList sampleInputField).utf8ByteSize :=
    not_lt.mpr (sample_short (by simp))
  have hsignature : ¬ maxTokenBytes <
      (String.ofList sampleSignatureField).utf8ByteSize :=
    not_lt.mpr (sample_short (by simp))
  rw [SignedRequest.signatureHeaders]
  simp only [sampleFields, hkey, hinput, hsignature, or_self, if_false]
  rfl

def samplePresented : HttpSig.Presented where
  label := "sig1"
  components := bodiedComponents
  created := 1000
  expires := none
  params := String.ofList sampleParams
  signature := sampleSignatureBytes

theorem sample_presented :
    HttpSig.presented sampleRequestCodec label sampleHeaders.input
      sampleHeaders.signature = .ok samplePresented := by
  have hinput : sampleHeaders.input.toList = sampleInputField :=
    String.toList_ofList
  have hsignature : sampleHeaders.signature.toList = sampleSignatureField :=
    String.toList_ofList
  have hne : sampleSignatureField ≠ sampleInputField := sample_texts.2.2.1
  have hinputs : HttpSig.dictionary sampleRequestCodec sampleHeaders.input
      "Signature-Input" = .ok [("sig1", .innerList sampleCovered)] := by
    simp [HttpSig.dictionary, sampleRequestCodec, hinput, HttpSig.firstRepeat]
  have hsignatures : HttpSig.dictionary sampleRequestCodec
      sampleHeaders.signature "Signature" =
        .ok [("sig1", .item ⟨.byteSequence sampleSignatureBytes, []⟩)] := by
    simp [HttpSig.dictionary, sampleRequestCodec, hsignature, hne,
      HttpSig.firstRepeat]
  have hcovered : HttpSig.coveredComponents [] sampleCovered.items =
      .ok bodiedComponents := sample_texts.2.2.2.2.2.1
  rw [HttpSig.presented, HttpSig.presentedUnder, hinputs, hsignatures]
  simp only [bind, Except.bind]
  rfl

theorem sample_parts_ne :
    sampleHeader64 ≠ sampleClaims64 ∧ sampleHeader64 ≠ sampleKeyChars ∧
      sampleClaims64 ≠ sampleKeyChars := by
  simpa [and_assoc] using sample_texts.2.1

theorem sample_split :
    Jose.split (RustText.trim sampleHeaders.key) =
      some (String.ofList sampleHeader64, String.ofList sampleClaims64,
        String.ofList []) := by
  have hchars : RustText.trimChars sampleToken = sampleToken :=
    sample_trimmed (by simp)
  have hparts : sampleToken.splitOn '.' =
      [sampleHeader64, sampleClaims64, []] := sample_texts.2.2.2.1
  have hkey : sampleHeaders.key = String.ofList sampleToken := rfl
  rw [hkey, trim_ofList hchars, split_ofList hparts]

theorem sample_header :
    Jose.decodeJson sampleVerifier
        (readHeader (Serde.docSource sampleVerifier.floats))
        (String.ofList sampleHeader64) "token header" =
      .ok { typ := some "dpop-bound+jwt", alg := some "EdDSA" } := by
  apply Jose.decodeJson_of_doc
  · show (sampleVerifier.decodeUrl (String.ofList sampleHeader64)) =
      some (membersText sampleHeader)
    simp [sampleVerifier, sampleBytes, membersText]
  · rfl

theorem sample_claims :
    Jose.decodeMap sampleVerifier (String.ofList sampleClaims64)
      "token claims" = .ok sampleClaims := by
  have hskip := beq_eq_false_iff_ne.mpr sample_parts_ne.1.symm
  have hnumber : Serde.Number.ofText sampleFloats
      (Serde.Number.toText sampleFloats (.posInt 1110)) =
        some (.posInt 1110) := by
    simp [Serde.Number.ofText, Serde.Number.toText]
  apply Jose.decodeMap_of_members
  · simp [sampleVerifier, sampleBytes, List.lookup_cons, hskip, membersText]
  · decide
  · simp [sampleVerifier, sampleClaims, Serde.Value.toDoc,
      Serde.Value.toMembers, Serde.Value.ofDoc, Serde.Value.ofMembers,
      Serde.Map.insert, hnumber]

theorem sample_confirmedKey :
    confirmedKey sampleVerifier sampleClaims = .ok sampleVerifyingKey := by
  have hheader : sampleKeyText.toList ≠ sampleHeader64 := by
    rw [sampleKeyText, String.toList_ofList]
    exact sample_parts_ne.2.1.symm
  have hclaims : sampleKeyText.toList ≠ sampleClaims64 := by
    rw [sampleKeyText, String.toList_ofList]
    exact sample_parts_ne.2.2.symm
  have hskip := beq_eq_false_iff_ne.mpr hheader
  have hskip' := beq_eq_false_iff_ne.mpr hclaims
  have hdecode : sampleVerifier.decodeUrl sampleKeyText =
      some sampleKeyBytes := by
    simp [sampleVerifier, sampleBytes, List.lookup_cons, hskip, hskip']
  have hpoint : sampleVerifier.validPoint sampleVerifyingKey = true := by
    simp [sampleVerifier]
  have hcnf : (sampleClaims.get "cnf").map (readCnf Serde.valueSource) =
      some (.ok { kty := "OKP", crv := "Ed25519", x := sampleKeyText }) := rfl
  rcases Option.map_eq_some_iff.mp hcnf with ⟨cnf, hget, hread⟩
  have hkey : toVerifyingKey sampleKeyBytes = some sampleVerifyingKey := rfl
  simp only [confirmedKey, hget, hread, jwkToVerifyingKey, Jwk.point,
    hdecode, hkey, hpoint]
  rfl

def sampleBound : Bound where
  agent := "agent-1"
  key := sampleVerifyingKey
  claims := sampleClaims

theorem sample_bound :
    bound sampleVerifier sampleConfig (RustText.trim sampleHeaders.key) =
      .ok sampleBound :=
  bound_of_claims sample_split sample_header (by decide) sample_claims rfl rfl
    (by decide) rfl sample_confirmedKey (List.mem_singleton_self _)

theorem sample_unexpired {now : ℤ} (hlow : 1000 ≤ now) (hhigh : now ≤ 1060) :
    checkExpiry sampleClaims now = .ok () := by
  have hexp : (sampleClaims.get "exp").bind Serde.Value.asF64 = some 1110 :=
    congrArg some (FiniteDouble.rounded_intCast (n := 1110) (by norm_num))
  have hsmall : |now| < 2 ^ 53 := by
    rw [abs_lt]
    omega
  have hlater : ¬ (1110 : ℚ) ≤ now := by
    rw [not_le]
    exact_mod_cast (by omega : now < 1110)
  rw [checkExpiry, hexp]
  simp only [FiniteDouble.rounded_intCast hsmall, if_neg hlater]

theorem sample_digest :
    sampleFields.boundContentDigest sampleVerifier =
      .ok (String.ofList sampleDigestField) := by
  have hshort : ¬ maxTokenBytes <
      (String.ofList sampleDigestField).utf8ByteSize :=
    not_lt.mpr (sample_short (by simp))
  have htrim : RustText.trimChars sampleDigestField = sampleDigestField :=
    sample_trimmed (by simp)
  have hstrip : (stripFront "sha-256=:".toList sampleDigestField).bind
      (stripBack [':']) = some (sampleDigestField.drop 9).dropLast :=
    sample_texts.2.2.2.2.1
  have hparse : parseSha256ContentDigest sampleVerifier
      (String.ofList sampleDigestField) = .ok sampleDigestBytes := by
    simp only [parseSha256ContentDigest, RustText.trim, String.toList_ofList,
      htrim, hstrip, bind, Except.bind]
    simp [sampleVerifier, sampleBytes]
    rfl
  have hdigest : sampleFields.contentDigest =
      some (String.ofList sampleDigestField) := rfl
  have hhash : sampleVerifier.sha256 sampleFields.body = sampleDigestBytes := by
    simp [sampleVerifier, sampleFields]
  rw [SignedRequest.boundContentDigest, hdigest]
  simp only [if_neg hshort, hparse, hhash, bind, Except.bind]
  rfl

def sampleMessage : Message :=
  sampleFields.message
    [("signature-key", sampleHeaders.key),
      ("content-digest", String.ofList sampleDigestField)]

theorem sample_draws :
    HttpSig.Draws sampleMessage samplePresented.components sampleComponents where
  names := rfl
  values := by
    have hdigest : HttpSig.signable (String.ofList sampleDigestField) = true :=
      signable_of_visible (sample_visible (by simp))
    have htoken : HttpSig.signable (String.ofList sampleToken) = true :=
      signable_of_visible (sample_visible (by simp))
    have hsignable := sample_texts.2.2.2.2.2.2.1
    simp only [sampleComponents, List.forall_mem_cons, List.not_mem_nil,
      false_imp_iff, implies_true, and_true]
    refine ⟨?_, ?_, ?_, ?_, ?_⟩
    · exact HttpSig.value_of_draw rfl (hsignable _ (by simp))
    · exact HttpSig.value_of_draw rfl (hsignable _ (by simp))
    · exact HttpSig.value_of_draw rfl (hsignable _ (by simp))
    · exact HttpSig.value_of_draw rfl hdigest
    · exact HttpSig.value_of_draw rfl htoken

theorem sample_base :
    ∃ base, sampleFields.signatureBase sampleVerifier sampleHeaders.key
      samplePresented = .ok base ∧
        base.toList = HttpSig.baseText sampleComponents sampleParams := by
  have hdigest : samplePresented.components.contains "content-digest" =
      true := by decide
  rcases HttpSig.signatureBase_of_draws (p := samplePresented)
    sample_draws with ⟨base, hbase, htext⟩
  refine ⟨base, signatureBase_of_digest hdigest sample_digest hbase, ?_⟩
  rw [htext, samplePresented, String.toList_ofList]

theorem sample_fresh {now : ℤ} (hlow : 1000 ≤ now) (hhigh : now ≤ 1060) :
    samplePresented.fresh now maxSignatureAgeSecs maxClockSkewAheadSecs =
      .ok () := by
  have hage : HttpSig.saturatingSub now samplePresented.created =
      now - 1000 := by
    have hcreated : samplePresented.created = 1000 := rfl
    rw [HttpSig.saturatingSub, hcreated]
    unfold HttpSig.i64Min HttpSig.i64Max
    omega
  rw [Presented.fresh, hage, if_pos]
  unfold maxSignatureAgeSecs maxClockSkewAheadSecs
  omega

theorem sample_authenticate {now : ℤ} (hlow : 1000 ≤ now)
    (hhigh : now ≤ 1060) :
    authenticate sampleVerifier sampleFields sampleConfig now =
      .ok "agent-1" := by
  rcases sample_base with ⟨base, hbase, htext⟩
  have hsame : base = String.ofList
      (HttpSig.baseText sampleComponents sampleParams) := by
    rw [← htext, String.ofList_toList]
  have hverify : sampleVerifier.verifyStrict sampleVerifyingKey
      (ByteText.encode base) ⟨sampleSignatureBytes.toArray, rfl⟩ = true := by
    simp [sampleVerifier, hsame]
    rfl
  have hp : sampleFields.presented sampleVerifier sampleHeaders now =
      .ok samplePresented := by
    have hread : HttpSig.presented sampleVerifier.codec label
        sampleHeaders.input sampleHeaders.signature = .ok samplePresented :=
      sample_presented
    rw [SignedRequest.presented, hread]
    simp only [bind, Except.bind, sample_fresh hlow hhigh]
    rfl
  exact authenticate_of_verified (List.cons_ne_nil _ _)
    sample_signatureHeaders (by decide) hp sample_bound
    (sample_unexpired hlow hhigh) hbase rfl hverify

theorem sample_accepted {host : String}
    (hhost : lowerAscii host = "pdp.example") {now : UInt64}
    (hlow : 1000 ≤ now.toInt64.toInt) (hhigh : now.toInt64.toInt ≤ 1060) :
    sampleConfig.authenticate sampleVerifier (sampleRequest host) now
        sampleBody =
      .ok (sampleConfig.caller "agent-1") :=
  authenticated_of_agent (sample_fromRequest hhost)
    (sample_authenticate hlow hhigh)

theorem sample_oneMessage : OneMessage sampleVerifier := by
  intro key signature message message' hverify hverify'
  have hmessage : ∀ text,
      sampleVerifier.verifyStrict key text signature = true →
        text = ByteText.encode (String.ofList
          (HttpSig.baseText sampleComponents sampleParams)) := by
    intro text htext
    simp only [sampleVerifier, Bool.and_eq_true, beq_iff_eq] at htext
    exact htext.1.2
  rw [hmessage message hverify, hmessage message' hverify']

theorem sample_oneLine : OneLine sampleVerifier.codec := by
  intro list text htext
  simp only [sampleVerifier, sampleRequestCodec] at htext
  split at htext
  · rw [← Option.some.inj htext, String.toList_ofList]
    exact sample_texts.2.2.2.2.2.2.2
  · cases htext

theorem signed_request_binds_sample :
    (∃ key signature, SignedFor sampleVerifier sampleConfig
        (sampleRequest "pdp.example") sampleBody "agent-1" key signature) ∧
      SameRequest sampleVerifier (sampleRequest "pdp.example")
        (sampleRequest "PDP.Example") sampleBody sampleBody := by
  have hbinds := signed_request_binds sampleVerifier sampleConfig
    sample_oneMessage sample_oneLine
  have hlower : lowerAscii "pdp.example" = "pdp.example" := by decide
  have hmixed : lowerAscii "PDP.Example" = "pdp.example" := by decide
  have hfirst := @sample_accepted _ hlower 1010 (by decide) (by decide)
  have hsecond := @sample_accepted _ hmixed 1050 (by decide) (by decide)
  have hfields := sample_headerFields "pdp.example"
  have hfields' := sample_headerFields "PDP.Example"
  refine ⟨hbinds.1 _ _ _ _ hfirst, ?_⟩
  apply And.left
  apply hbinds.2.2 _ _ _ _ _ _ _ _ (fun _ => rfl) _ _ _ hfirst hsecond
  · rw [hfields.1, hfields'.1]
  · rw [hfields.2.1, hfields'.2.1]
  · rw [hfields.2.2.1, hfields'.2.2.1]

end Decern.Sig
