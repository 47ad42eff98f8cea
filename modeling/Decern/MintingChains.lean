import Decern.BoundedDelegation
import Decern.GraphGrowth
import Decern.SamplePlatform
import Decern.TokenExchange
import Mathlib.Tactic

/-!
# Chains of mints

Every mint of a chain stays within its delegator, and the graph it is admitted
to never refuses it: what is clamped off the entities is what the validator
reads off the directory.
-/

namespace Decern.Identity

open Cedar (Policy)
open Decern.Graph (PrincipalRec)
open Serde (Map Value)

/-! ## The request behind a mint -/

namespace Mint

def request : Mint → ExchangeRequest
  | .exchange req _ _ => req
  | .underMission m subAgentId requestedScopes now _ _ =>
      missionRequest m subAgentId requestedScopes now

def key : Mint → SigningKey
  | .exchange _ key _ => key
  | .underMission _ _ _ _ key _ => key

/-- What is refused before any graph is looked at. -/
def refusal : Mint → Option IdentityError
  | .exchange req _ allowed => refuseForgery req allowed
  | .underMission m subAgentId _ _ _ registry =>
      refuseUnderMission m subAgentId registry

/-- The scopes asked for. -/
def requested : Mint → List String
  | .exchange req _ _ => req.requestedScopes
  | .underMission _ _ requestedScopes _ _ _ => requestedScopes

/-- Under a Mission, what it approved. -/
def Approves : Mint → String → Prop
  | .exchange _ _ _, _ => True
  | .underMission m _ _ _ _ _, scope => scope ∈ m.mission.approvedTools

theorem mem_requestedScopes {mint : Mint} {scope : String} :
    scope ∈ mint.request.requestedScopes ↔
      scope ∈ mint.requested ∧ mint.Approves scope := by
  cases mint with
  | exchange req key allowed => simp [request, requested, Approves]
  | underMission m subAgentId requestedScopes now key registry =>
      simp [request, requested, Approves, missionRequest]

end Mint

section Minting

variable {S P E C : Type} {engine : Engine S P E C} {J : Jose}
  {model : Model S P} {mint : Mint} {out : Exchanged S P}

theorem refuseForgery_mission {m : ApprovedMission} {subAgentId : String}
    {requestedScopes : List String} {now : UInt64}
    (hreserved : reservedSubjectIdPrefix subAgentId = none) :
    refuseForgery (missionRequest m subAgentId requestedScopes now) [] =
      none := by
  simp [refuseForgery, missionRequest, hreserved, Option.filter]

theorem run_eq (mint : Mint) :
    mint.run engine J model =
      match mint.refusal with
      | some error => .error error
      | none => mintFor engine J model mint.request mint.key := by
  cases mint with
  | exchange req key allowed =>
      simp only [Mint.run, Mint.refusal, exchange]
      cases refuseForgery req allowed <;> rfl
  | underMission m subAgentId requestedScopes now key registry =>
      simp only [Mint.run, Mint.refusal, issueUnderMission, exchange]
      cases hrefused : refuseUnderMission m subAgentId registry with
      | some error => rfl
      | none =>
          have hreserved : reservedSubjectIdPrefix subAgentId = none := by
            unfold refuseUnderMission at hrefused
            split at hrefused
            case h_1 => cases hrefused
            case h_2 hnone => exact hnone
          simp only [refuseForgery_mission hreserved]
          rfl

/-! ## The badge -/

/-- A minted badge verifies at the time of its minting, unless its authority
is over or runs beyond the graph's range. -/
theorem verify_minted (req : ExchangeRequest) (tenant : String)
    (scopes : List String) (expiry : UInt64) (key : SigningKey) :
    verify J (issue J (mintedBadge req tenant scopes expiry) key)
        (J.verifyingKey key) req.now =
      if expiry < req.now then .error (.expired req.now expiry)
      else if 2 ^ 63 ≤ expiry.toNat then
        .error (.subjectInvalid ("subject expiry " ++ toString expiry ++
          " exceeds the maximum representable value 9223372036854775807"))
      else .ok (mintedBadge req tenant scopes expiry) := by
  have hissued := verifySignature_issue J
    (show badgeType ∈ (mintedBadge req tenant scopes expiry).types by
      simp [mintedBadge]) key
  have hnow : ¬ req.now < req.now := UInt64.lt_irrefl _
  have hexpiry : ¬ expiry < expiry := UInt64.lt_irrefl _
  simp only [verify, hissued, bind, Except.bind]
  simp only [mintedBadge, hnow, hexpiry, if_false]
  rfl

end Minting

/-! ## The entities and the directory -/

section Entities

variable {list : List Value} {dir : Graph.Directory} {id : String}
  {entity : Value}

theorem uidOf_of_namesPrincipal (hnames : namesPrincipal id entity = true) :
    Graph.uidOf entity = ("Principal", id) := by
  unfold namesPrincipal at hnames
  cases huid : entity.get "uid" with
  | none => simp [huid] at hnames
  | some uid =>
      simp only [huid, Bool.and_eq_true, decide_eq_true_eq] at hnames
      simp [Graph.uidOf, huid, hnames.1, hnames.2]

theorem namesPrincipal_of_uidOf (hid : id ≠ "")
    (huid : Graph.uidOf entity = ("Principal", id)) :
    namesPrincipal id entity = true := by
  rw [Graph.uidOf, Prod.mk.injEq] at huid
  obtain ⟨hty, hname⟩ := huid
  unfold namesPrincipal
  cases hfound : entity.get "uid" with
  | none => simp [hfound] at hty
  | some uid =>
      simp only [hfound, Option.bind_some] at hty hname
      cases htype : (uid.get "type").bind Value.asStr with
      | none => simp [htype] at hty
      | some ty =>
          cases hsome : (uid.get "id").bind Value.asStr with
          | none => exact absurd (by simpa [hsome] using hname) hid
          | some found =>
              rw [htype, Option.getD_some] at hty
              rw [hsome, Option.getD_some] at hname
              simp [htype, hsome, hty, hname]

variable (hholds : dir.HoldsEntities list)
include hholds

/-- The principal an entity of the list becomes. -/
theorem principal_of_mem (hmem : entity ∈ list)
    (huid : Graph.uidOf entity = ("Principal", id)) :
    ∃ attrs p, Graph.attrsOf entity = some attrs ∧
      Graph.readPrincipal id attrs = .ok p ∧ dir.principals[id]? = some p := by
  obtain ⟨attrs, hattrs, hkind⟩ := hholds.kinds entity hmem
  rcases hkind with ⟨found, p, hfound, hread⟩ | ⟨found, r, hfound, _⟩ |
    ⟨found, o, hfound, _⟩
  · rw [huid, Prod.mk.injEq] at hfound
    obtain rfl := hfound.2
    exact ⟨attrs, p, hattrs, hread, (hholds.principals id p).mpr
      ⟨entity, hmem, huid, attrs, hattrs, hread⟩⟩
  · rw [huid] at hfound
    simp at hfound
  · rw [huid] at hfound
    simp at hfound

/-- The directory has no principal of an id exactly when no entity names
one. -/
theorem fresh_iff (hid : id ≠ "") :
    dir.principals[id]? = none ↔ list.any (namesPrincipal id) = false := by
  rw [List.any_eq_false]
  constructor
  · intro hnone entity hmem hnames
    obtain ⟨_, p, _, _, hp⟩ := principal_of_mem hholds hmem
      (uidOf_of_namesPrincipal hnames)
    rw [hnone] at hp
    cases hp
  · intro hnames
    by_contra hsome
    obtain ⟨p, hp⟩ := Option.ne_none_iff_exists'.mp hsome
    obtain ⟨entity, hmem, huid, _⟩ := (hholds.principals id p).mp hp
    exact hnames entity hmem (namesPrincipal_of_uidOf hid huid)

omit hholds in
theorem readPrincipal_eq {attrs : Map} {p : PrincipalRec}
    (hread : Graph.readPrincipal id attrs = .ok p) :
    p.tenant = (Graph.attrStr attrs "tenant").getD "" ∧
      p.expiry = ((attrs.get "expiry").bind Value.asI64).getD (-1) ∧
      p.scopes = Graph.attrSet attrs "scopes" := by
  obtain ⟨delegator, _, hread⟩ := Serde.bind_eq_ok.mp hread
  obtain ⟨org, _, hread⟩ := Serde.bind_eq_ok.mp hread
  obtain ⟨revoked, _, hread⟩ := Serde.bind_eq_ok.mp hread
  cases Except.ok.inj hread
  exact ⟨rfl, rfl, rfl⟩

omit hholds in
theorem asI64_of_asU64 {value : Value} {long : UInt64}
    (hvalue : value.asU64 = some long) :
    value.asI64 =
      if long.toNat < 2 ^ 63 then some (Int64.ofNat long.toNat)
      else none := by
  cases value with
  | number number =>
      cases number with
      | posInt found =>
          cases hvalue
          rfl
      | negInt found => cases hvalue
      | float bits => cases hvalue
  | null => cases hvalue
  | bool flag => cases hvalue
  | string text => cases hvalue
  | array items => cases hvalue
  | object members => cases hvalue

/-- What is stated of a delegator is what the directory holds of it. -/
theorem delegator_of_attrs {tenant : String} {expiry : UInt64}
    {scopes : List String}
    (hattrs : delegatorAttrs (.array list) id =
      some (tenant, expiry, scopes)) :
    ∃ d : PrincipalRec, dir.principals[id]? = some d ∧ d.tenant = tenant ∧
      tenant ≠ "" ∧ d.scopes = scopes.toFinset ∧ expiry.toNat < 2 ^ 63 ∧
      d.expiry = Int64.ofNat expiry.toNat := by
  have hlist : (Value.array list).asArray = some list := rfl
  rw [delegatorAttrs, principalAttrs, hlist] at hattrs
  simp only [Option.bind_eq_bind, Option.bind_some, Option.bind_eq_some_iff,
    Option.pure_def, Option.some.injEq, Prod.mk.injEq] at hattrs
  obtain ⟨attrs, hfound, _, ⟨tenantValue, htenantValue, htenant⟩, _,
    ⟨expiryValue, hexpiryValue, hexpiry⟩, items,
    ⟨scopesValue, hscopesValue, hitems⟩, rfl, rfl, rfl⟩ := hattrs
  obtain ⟨entity, hmem, hentity⟩ := List.exists_of_findSome?_eq_some hfound
  split_ifs at hentity with hnames
  obtain ⟨members, p, hmembers, hread, hp⟩ := principal_of_mem hholds hmem
    (uidOf_of_namesPrincipal hnames)
  have hobject : attrs = .object members := by
    rw [Graph.attrsOf, hentity, Option.bind_some] at hmembers
    cases attrs <;> simp [Value.asObject] at hmembers
    rw [hmembers]
  subst hobject
  rw [Value.get_object] at htenantValue hexpiryValue hscopesValue
  obtain ⟨hasTenant, hasExpiry, hasScopes⟩ := readPrincipal_eq hread
  obtain ⟨hnamed, hnonneg⟩ := hholds.filled id p hp
  rw [Graph.attrStr, htenantValue, Option.bind_some, htenant,
    Option.getD_some] at hasTenant
  rw [hexpiryValue, Option.bind_some, asI64_of_asU64 hexpiry] at hasExpiry
  have hscopes : p.scopes = (items.filterMap Value.asStr).toFinset := by
    rw [hasScopes, Graph.attrSet, hscopesValue, Option.bind_some, hitems]
    rfl
  split_ifs at hasExpiry with hrange
  · exact ⟨p, hp, hasTenant, hasTenant ▸ hnamed, hscopes, hrange, hasExpiry⟩
  · rw [hasExpiry] at hnonneg
    exact absurd hnonneg (by decide)

end Entities

/-! ## Admission into the directory -/

/-- The principal an admitted entity becomes. -/
def admittedRec (subject : BadgeSubject) (delegator : String) :
    PrincipalRec where
  id := subject.id
  kind := subject.kind
  tenant := subject.tenant
  expiry := Int64.ofNat subject.expiry.toNat
  scopes := subject.scopes.toFinset
  delegator := some delegator

section Admitted

variable {dir : Graph.Directory} {subject : BadgeSubject}
  {delegator : String}

theorem uidOf_admittedEntity :
    Graph.uidOf (admittedEntity subject delegator) =
      ("Principal", subject.id) := by
  simp [Graph.uidOf, admittedEntity, Value.asStr]

theorem attrsOf_admittedEntity :
    Graph.attrsOf (admittedEntity subject delegator) =
      some (admittedAttrs subject delegator) := rfl

theorem filterMap_asStr (texts : List String) :
    (texts.map Value.string).filterMap Value.asStr = texts := by
  induction texts with
  | nil => rfl
  | cons text rest ih => simp [ih, Value.asStr]

theorem readPrincipal_admitted (hexpiry : subject.expiry.toNat < 2 ^ 63) :
    Graph.readPrincipal subject.id (admittedAttrs subject delegator) =
      .ok (admittedRec subject delegator) := by
  have hdelegator : Graph.attrEntityRef (admittedAttrs subject delegator)
      "delegator" "Principal" = .ok (some delegator) := rfl
  have horg : Graph.attrEntityRef (admittedAttrs subject delegator)
      "org" "Organization" = .ok none := rfl
  have hrevoked : Graph.attrRevoked (admittedAttrs subject delegator) =
      .ok false := rfl
  have hasExpiry : ((admittedAttrs subject delegator).get "expiry").bind
      Value.asI64 = some (Int64.ofNat subject.expiry.toNat) := by
    have hget : (admittedAttrs subject delegator).get "expiry" =
        some (.number (.posInt subject.expiry)) := rfl
    rw [hget, Option.bind_some, Value.asI64, if_pos hexpiry]
  have hscopes : Graph.attrSet (admittedAttrs subject delegator) "scopes" =
      subject.scopes.toFinset := by
    have hset : Graph.attrSet (admittedAttrs subject delegator) "scopes" =
        ((subject.scopes.map Value.string).filterMap
          Value.asStr).toFinset := rfl
    rw [hset, filterMap_asStr]
  rw [Graph.readPrincipal, hdelegator, horg, hrevoked]
  simp only [bind, Except.bind, hasExpiry, hscopes]
  rfl

/-- A fresh entity of a tenant, with an expiry in range, is added to the
directory as it reads. -/
theorem addEntity_admitted (index : ℕ) (hid : subject.id ≠ "")
    (htenant : subject.tenant ≠ "") (hexpiry : subject.expiry.toNat < 2 ^ 63)
    (hfresh : dir.principals[subject.id]? = none) :
    dir.addEntity index (admittedEntity subject delegator) =
      (dir.grown (admittedRec subject delegator), []) := by
  have hnonneg : ¬ (admittedRec subject delegator).expiry < 0 := by
    rw [Int64.lt_iff_toInt_lt, admittedRec,
      Int64.toInt_ofNat_of_lt (by omega)]
    simp
  have hadd : dir.addPrincipal subject.id
      (admittedAttrs subject delegator) =
        (dir.grown (admittedRec subject delegator), []) := by
    rw [Graph.Directory.addPrincipal, readPrincipal_admitted hexpiry]
    simp only [admittedRec] at hnonneg
    simp [Graph.Directory.missing, Graph.Directory.duplicateUid,
      Graph.violation, hfresh, hnonneg, admittedRec, htenant,
      Graph.Directory.grown]
  unfold Graph.Directory.addEntity
  simp [uidOf_admittedEntity, attrsOf_admittedEntity, hid, hadd]

end Admitted

/-! ## What a mint comes to -/

section Minting

variable {S P E C : Type} {engine : Engine S P E C} {J : Jose}
  {model : Model S P} {kernel : Kernel S P E}

/-- A loaded model loads again with other entities, where their graph
validates and the engine reads them. -/
theorem loaded_of_validate (hloaded : Kernel.Loaded engine model kernel)
    {entities : Value} {dir : Graph.Directory}
    (hparse : Graph.Directory.parse entities = .ok dir)
    (hvalid : dir.validate = []) :
    loaded engine { model with entities } =
      match engine.readEntities model.schema (injectDerived entities dir) with
      | .ok _ => .ok { model with entities }
      | .error message => .error (.model (KernelError.entities message).text) := by
  have hnew : Kernel.new engine { model with entities } =
      match engine.readEntities model.schema (injectDerived entities dir) with
      | .ok store => .ok { schema := model.schema
                           contextShape := kernel.contextShape
                           policies := model.policies
                           entities := store
                           directory := dir }
      | .error message => .error (.entities message) := by
    simp only [Kernel.new, hloaded.contextShape, hloaded.typed, hparse, hvalid,
      Except.mapError, bind, Except.bind]
    cases engine.readEntities model.schema (injectDerived entities dir) <;>
      rfl
  rw [loaded, hnew]
  cases engine.readEntities model.schema (injectDerived entities dir) <;> rfl

theorem toInt_ofNat_expiry {expiry : UInt64} (hrange : expiry.toNat < 2 ^ 63) :
    (Int64.ofNat expiry.toNat).toInt = expiry.toNat :=
  Int64.toInt_ofNat_of_lt (by omega)

/-- What is clamped to a delegator is within it. -/
theorem admitted_within {req : ExchangeRequest} {tenant : String}
    {delExpiry : UInt64} {delScopes : List String} {d : PrincipalRec}
    (htenant : d.tenant = tenant) (hscopes : d.scopes = delScopes.toFinset)
    (hrange : delExpiry.toNat < 2 ^ 63)
    (hexpiry : d.expiry = Int64.ofNat delExpiry.toNat) :
    let clamped := clampDelegation delScopes delExpiry req.requestedScopes
      req.requestedExpiry
    (admittedRec (mintedBadge req tenant clamped.1 clamped.2).subject
      req.delegatorId).Within d := by
  intro clamped
  have hle : clamped.2.toNat ≤ delExpiry.toNat :=
    UInt64.le_iff_toNat_le.mp Std.min_le_right
  exact {
    tenant := htenant.symm
    expiry := by
      rw [Int64.le_iff_toInt_le, hexpiry, toInt_ofNat_expiry hrange]
      have hclamped : (Int64.ofNat clamped.2.toNat).toInt =
          clamped.2.toNat := toInt_ofNat_expiry (by omega)
      rw [admittedRec, mintedBadge, hclamped]
      omega
    scopes := by
      rw [hscopes]
      intro scope hscope
      have hmem : scope ∈ clamped.1 := List.mem_toFinset.mp hscope
      have hheld := (List.mem_filter.mp hmem).2
      exact List.mem_toFinset.mpr (of_decide_eq_true hheld)
    roles := Finset.empty_subset _
    jurisdictions := Finset.empty_subset _ }

/-- The mint of a fresh id under a delegator the model states: too late, in
another's place, or up to the engine. -/
theorem mintFor_eq (hloaded : Kernel.Loaded engine model kernel)
    {req : ExchangeRequest} (key : SigningKey) (hid : req.subAgentId ≠ "")
    {tenant : String} {delExpiry : UInt64} {delScopes : List String}
    (hattrs : delegatorAttrs model.entities req.delegatorId =
      some (tenant, delExpiry, delScopes)) :
    let clamped := clampDelegation delScopes delExpiry req.requestedScopes
      req.requestedExpiry
    let badge := mintedBadge req tenant clamped.1 clamped.2
    let entity := admittedEntity badge.subject req.delegatorId
    ∃ list, model.entities = .array list ∧
      mintFor engine J model req key =
        if clamped.2 < req.now then .error (.expired req.now clamped.2)
        else if (kernel.directory.principals[req.subAgentId]?).isSome then
          .error (.alreadyExists req.subAgentId)
        else match engine.readEntities model.schema
            (injectDerived (.array (list ++ [entity]))
              (kernel.directory.grown
                (admittedRec badge.subject req.delegatorId))) with
          | .ok _ => .ok {
              token := issue J badge key
              badge := badge
              model := { model with entities := .array (list ++ [entity]) } }
          | .error message =>
              .error (.model (KernelError.entities message).text) := by
  intro clamped badge entity
  obtain ⟨list, hlist, hholds⟩ := Graph.Directory.parse_holds hloaded.parsed
  have hstated := hattrs
  rw [hlist] at hstated
  obtain ⟨d, hd, htenant, hnamed, hscopes, hrange, hexpiry⟩ :=
    delegator_of_attrs hholds hstated
  have hle : clamped.2 ≤ delExpiry := Std.min_le_right
  have hclamped : clamped.2.toNat < 2 ^ 63 :=
    lt_of_le_of_lt (UInt64.le_iff_toNat_le.mp hle) hrange
  have hverify : verify J (issue J badge key) (J.verifyingKey key) req.now =
      if clamped.2 < req.now then .error (.expired req.now clamped.2)
      else .ok badge := by
    have hrange : ¬ 2 ^ 63 ≤ clamped.2.toNat := by omega
    rw [verify_minted, if_neg hrange]
  have hkind : badge.subject.kind = "Agent" := rfl
  have hdelegator : badge.subject.delegator = some req.delegatorId := rfl
  have hsubject : badge.subject.id = req.subAgentId := rfl
  refine ⟨list, hlist, ?_⟩
  have hmint : mintFor engine J model req key = (do
      let admitted ← admitBadge engine J model (issue J badge key)
        (J.verifyingKey key) req.now
      return { token := issue J badge key, badge := admitted.2,
               model := admitted.1 }) := by
    simp only [mintFor, hattrs]
    rfl
  rw [hmint, admitBadge, hverify]
  by_cases hlate : clamped.2 < req.now
  · simp only [if_pos hlate, bind, Except.bind]
  rw [if_neg hlate, if_neg hlate]
  have hfresh := fresh_iff hholds hid
  by_cases hknown : (kernel.directory.principals[req.subAgentId]?).isSome
  · have hany : list.any (namesPrincipal req.subAgentId) = true := by
      by_contra hnone
      rw [Bool.not_eq_true, ← hfresh] at hnone
      simp [hnone] at hknown
    simp [hkind, hdelegator, hsubject, hlist, hany, hknown, bind, Except.bind]
  · have hnone : kernel.directory.principals[req.subAgentId]? = none := by
      simpa using hknown
    have hany := hfresh.mp hnone
    have hparse := Graph.Directory.parse_append (hlist ▸ hloaded.parsed)
      (@addEntity_admitted kernel.directory badge.subject req.delegatorId
        list.length hid hnamed hclamped hnone)
    have hvalid : (kernel.directory.grown
        (admittedRec badge.subject req.delegatorId)).validate = [] :=
      Graph.Directory.validate_grown hnone hholds.keyed hloaded.valid rfl hd
        (admitted_within htenant hscopes hrange hexpiry) rfl
    have hload := loaded_of_validate hloaded hparse hvalid
    rw [if_neg hknown]
    simp only [hkind, hdelegator, hsubject, hlist, hany, hload, bind,
      Except.bind, ne_eq, not_true_eq_false, if_false, Bool.false_eq_true]
    cases engine.readEntities model.schema (injectDerived
      (.array (list ++ [admittedEntity badge.subject req.delegatorId]))
      (kernel.directory.grown
        (admittedRec badge.subject req.delegatorId))) <;> rfl

theorem loaded_eq_ok {next : Model S P}
    (hload : loaded engine model = .ok next) :
    next = model ∧ ∃ after, Kernel.new engine model = .ok after := by
  unfold loaded at hload
  split at hload
  case h_1 after hnew =>
    cases hload
    exact ⟨rfl, after, hnew⟩
  case h_2 => cases hload
  case h_3 => cases hload

/-- A mint that succeeds is a badge's subject more in a model that loads. -/
theorem mintFor_eq_ok {req : ExchangeRequest} {key : SigningKey}
    {out : Exchanged S P} (hmint : mintFor engine J model req key = .ok out) :
    ∃ tenant delExpiry delScopes list,
      delegatorAttrs model.entities req.delegatorId =
        some (tenant, delExpiry, delScopes) ∧
      model.entities = .array list ∧
      out.badge = mintedBadge req tenant
        (clampDelegation delScopes delExpiry req.requestedScopes
          req.requestedExpiry).1
        (clampDelegation delScopes delExpiry req.requestedScopes
          req.requestedExpiry).2 ∧
      out.model = { model with entities := .array (list ++
        [admittedEntity out.badge.subject req.delegatorId]) } ∧
      list.any (namesPrincipal req.subAgentId) = false ∧
      ∃ after, Kernel.new engine out.model = .ok after := by
  unfold mintFor at hmint
  split at hmint
  case h_1 => cases hmint
  case h_2 tenant delExpiry delScopes hattrs =>
    obtain ⟨⟨next, verified⟩, hadmitted, hmint⟩ := Serde.bind_eq_ok.mp hmint
    cases hmint
    obtain ⟨badge, hverify, hadmitted⟩ := Serde.bind_eq_ok.mp hadmitted
    rw [verify_minted] at hverify
    split_ifs at hverify
    cases hverify
    dsimp only at hadmitted
    split_ifs at hadmitted with hkind
    split at hadmitted
    case h_1 => cases hadmitted
    case h_2 delegator hdelegator =>
      cases hdelegator
      split at hadmitted
      case h_1 list hlist =>
        split_ifs at hadmitted with hany
        obtain ⟨loaded, hload, hadmitted⟩ := Serde.bind_eq_ok.mp hadmitted
        cases hadmitted
        obtain ⟨rfl, hafter⟩ := loaded_eq_ok hload
        exact ⟨tenant, delExpiry, delScopes, list, hattrs, hlist, rfl, rfl,
          by simpa [mintedBadge] using hany, hafter⟩
      case h_2 => cases hadmitted

/-! ## Minted principals -/

/-- The principal a mint adds under its delegator, and nothing else. -/
structure MintedUnder (mint : Mint) (before after : Graph.Directory)
    (d p : PrincipalRec) : Prop where
  delegatorKnown : before.principals[mint.request.delegatorId]? = some d
  fresh : before.principals[mint.request.subAgentId]? = none
  admitted : after = before.grown p
  id : p.id = mint.request.subAgentId
  delegator : p.delegator = some mint.request.delegatorId
  tenant : p.tenant = d.tenant
  scopes : ∀ scope, scope ∈ p.scopes ↔
    scope ∈ mint.requested ∧ mint.Approves scope ∧ scope ∈ d.scopes
  roles : p.roles = ∅
  jurisdictions : p.jurisdictions = ∅
  expiry : p.expiry.toInt =
    min (mint.request.requestedExpiry.toNat : ℤ) d.expiry.toInt
  ancestors : ∀ a ∈ after.ancestorsOf p.id, ∃ ancestor : PrincipalRec,
    after.principals[a]? = some ancestor ∧ p.expiry ≤ ancestor.expiry

variable {mint : Mint} {out : Exchanged S P}

theorem mintFor_of_run (hrun : mint.run engine J model = .ok out) :
    mint.refusal = none ∧
      mintFor engine J model mint.request mint.key = .ok out := by
  rw [run_eq] at hrun
  split at hrun
  case h_1 => cases hrun
  case h_2 hnone => exact ⟨hnone, hrun⟩

theorem mintedUnder_of_run (hnew : Kernel.new engine model = .ok kernel)
    (hrun : mint.run engine J model = .ok out) :
    ∃ after d p, Kernel.new engine out.model = .ok after ∧
      MintedUnder mint kernel.directory after.directory d p := by
  have hloaded := Kernel.new_eq_ok_iff.mp hnew
  obtain ⟨tenant, delExpiry, delScopes, list, hattrs, hlist, hbadge, hmodel,
    hany, after, hafter⟩ := mintFor_eq_ok (mintFor_of_run hrun).2
  have hloaded' := Kernel.new_eq_ok_iff.mp hafter
  have hholds : kernel.directory.HoldsEntities list := by
    obtain ⟨found, hfound, hholds⟩ :=
      Graph.Directory.parse_holds hloaded.parsed
    rw [hlist, Value.array.injEq] at hfound
    exact hfound ▸ hholds
  obtain ⟨next, hnext, hholds'⟩ :=
    Graph.Directory.parse_holds hloaded'.parsed
  rw [hmodel, Value.array.injEq] at hnext
  have hsubject : out.badge.subject.id = mint.request.subAgentId := by
    rw [hbadge]
    rfl
  have hid : mint.request.subAgentId ≠ "" := by
    have hnamed := hholds'.named
      (admittedEntity out.badge.subject mint.request.delegatorId)
      (by simp [← hnext])
    rw [uidOf_admittedEntity, hsubject] at hnamed
    exact hnamed
  have hfresh := (fresh_iff hholds hid).mpr hany
  rw [hlist] at hattrs
  obtain ⟨d, hd, htenant, hnamed, hscopes, hrange, hexpiry⟩ :=
    delegator_of_attrs hholds hattrs
  have hclamp : (clampDelegation delScopes delExpiry
      mint.request.requestedScopes mint.request.requestedExpiry).2.toNat =
        min mint.request.requestedExpiry.toNat delExpiry.toNat :=
    UInt64.toNat_min _ _
  have hclamped : (clampDelegation delScopes delExpiry
      mint.request.requestedScopes
      mint.request.requestedExpiry).2.toNat < 2 ^ 63 := by
    omega
  have hparsed := Graph.Directory.parse_append (hlist ▸ hloaded.parsed)
    (@addEntity_admitted kernel.directory out.badge.subject
      mint.request.delegatorId list.length (hsubject ▸ hid)
      (by rw [hbadge]; exact hnamed) (by rw [hbadge]; exact hclamped)
      (hsubject ▸ hfresh))
  have hgrown : after.directory = kernel.directory.grown
      (admittedRec out.badge.subject mint.request.delegatorId) := by
    have hparsed' := hloaded'.parsed
    rw [hmodel] at hparsed'
    rw [hparsed, Except.ok.injEq] at hparsed'
    exact hparsed'.symm
  have hbounded := Graph.Directory.bounded_of_validate hholds'.keyed
    hloaded'.valid
  refine ⟨after, d, admittedRec out.badge.subject mint.request.delegatorId,
    hafter, {
      delegatorKnown := hd
      fresh := hfresh
      admitted := hgrown
      id := hsubject
      delegator := rfl
      tenant := ?_
      scopes := ?_
      roles := rfl
      jurisdictions := rfl
      expiry := ?_
      ancestors := ?_ }⟩
  · rw [hbadge]
    exact htenant.symm
  · intro scope
    rw [hbadge, hscopes]
    simp [admittedRec, mintedBadge, clampDelegation, and_assoc,
      Mint.mem_requestedScopes]
  · rw [hbadge, hexpiry, toInt_ofNat_expiry hrange]
    rw [admittedRec, mintedBadge, toInt_ofNat_expiry hclamped, hclamp]
    exact Nat.cast_min _ _
  · intro a ha
    obtain ⟨ancestor, hancestor, hwithin⟩ := hbounded.ancestors _ _
      (hgrown ▸ Graph.Directory.getElem?_grown_self) a ha
    exact ⟨ancestor, hancestor, hwithin.expiry⟩

/-! ## Mints that are granted -/

/-- The binding to a Mission is the delegator's; a Mission is live. -/
def Mint.Vouched : Mint → Prop
  | .exchange req _ _ => ∀ mission, req.mission = some mission →
      mission.approver = req.delegatorId
  | .underMission m _ _ _ _ registry =>
      m.state = .active ∧ refuseUnregistered m registry = none

/-- The entities with the principal a mint would add, and that principal. -/
def Mint.proposed (mint : Mint) (entities : Value) :
    Option (Value × PrincipalRec) :=
  match delegatorAttrs entities mint.request.delegatorId, entities with
  | some (tenant, delExpiry, delScopes), .array list =>
      let clamped := clampDelegation delScopes delExpiry
        mint.request.requestedScopes mint.request.requestedExpiry
      let subject :=
        (mintedBadge mint.request tenant clamped.1 clamped.2).subject
      some (.array (list ++
          [admittedEntity subject mint.request.delegatorId]),
        admittedRec subject mint.request.delegatorId)
  | _, _ => none

/-- A fresh id of no reserved namespace, under a delegator the model states,
for an authority that is not over. -/
structure Mint.Grantable (mint : Mint) (entities : Value)
    (dir : Graph.Directory) : Prop where
  vouched : mint.Vouched
  unreserved : reservedSubjectIdPrefix mint.request.subAgentId = none
  named : mint.request.subAgentId ≠ ""
  fresh : dir.principals[mint.request.subAgentId]? = none
  current : ∃ tenant delExpiry delScopes,
    delegatorAttrs entities mint.request.delegatorId =
      some (tenant, delExpiry, delScopes) ∧
    mint.request.now ≤ min mint.request.requestedExpiry delExpiry

theorem refusal_of_vouched (hvouched : mint.Vouched)
    (hunreserved : reservedSubjectIdPrefix mint.request.subAgentId = none) :
    mint.refusal = none := by
  cases mint with
  | exchange req key allowed =>
      have hreserved : reservedSubjectIdPrefix req.subAgentId = none :=
        hunreserved
      cases hmission : req.mission with
      | none => simp [Mint.refusal, refuseForgery, hreserved, hmission]
      | some mission =>
          have hsame := hvouched mission hmission
          simp [Mint.refusal, refuseForgery, hreserved, hmission, hsame,
            Option.filter]
  | underMission m subAgentId requestedScopes now key registry =>
      have hreserved : reservedSubjectIdPrefix subAgentId = none :=
        hunreserved
      obtain ⟨hactive, hregistered⟩ := hvouched
      simp [Mint.refusal, refuseUnderMission, hreserved, hactive,
        hregistered]

/-- What may be granted is granted, unless the model's own schema does not
take the principal. -/
theorem run_of_grantable (hnew : Kernel.new engine model = .ok kernel)
    (hgrantable : mint.Grantable model.entities kernel.directory) :
    ∃ entities p, mint.proposed model.entities = some (entities, p) ∧
      ((∃ out store, engine.readEntities model.schema
            (injectDerived entities (kernel.directory.grown p)) = .ok store ∧
          mint.run engine J model = .ok out) ∨
        ∃ message, engine.readEntities model.schema
            (injectDerived entities (kernel.directory.grown p)) =
              .error message ∧
          mint.run engine J model =
            .error (.model (KernelError.entities message).text)) := by
  obtain ⟨tenant, delExpiry, delScopes, hattrs, hcurrent⟩ :=
    hgrantable.current
  have hrefusal := refusal_of_vouched hgrantable.vouched
    hgrantable.unreserved
  obtain ⟨list, hlist, hmint⟩ := mintFor_eq (J := J)
    (Kernel.new_eq_ok_iff.mp hnew) mint.key hgrantable.named hattrs
  obtain ⟨clamped, hclamped⟩ : ∃ clamped, clampDelegation delScopes delExpiry
      mint.request.requestedScopes mint.request.requestedExpiry = clamped :=
    ⟨_, rfl⟩
  have hcurrent' : ¬ clamped.2 < mint.request.now := by
    rw [← hclamped]
    exact UInt64.not_lt.mpr hcurrent
  have hfresh : ¬ (kernel.directory.principals[
      mint.request.subAgentId]?).isSome := by simp [hgrantable.fresh]
  simp only [hclamped] at hmint
  rw [if_neg hcurrent', if_neg hfresh] at hmint
  have hproposed : mint.proposed model.entities =
      some (.array (list ++ [admittedEntity
          (mintedBadge mint.request tenant clamped.1 clamped.2).subject
          mint.request.delegatorId]),
        admittedRec
          (mintedBadge mint.request tenant clamped.1 clamped.2).subject
          mint.request.delegatorId) := by
    rw [← hclamped]
    unfold Mint.proposed
    rw [hattrs, hlist]
  refine ⟨_, _, hproposed, ?_⟩
  rw [run_eq, hrefusal]
  split at hmint
  case h_1 store hread => exact Or.inl ⟨_, store, hread, hmint⟩
  case h_2 message hread => exact Or.inr ⟨message, hread, hmint⟩

/-! ## Chains -/

theorem next_loads (hnew : Kernel.new engine model = .ok kernel)
    (mint : Mint) :
    ∃ after, Kernel.new engine (mint.next engine J model) = .ok after := by
  unfold Mint.next
  split
  case h_1 out hrun =>
    obtain ⟨after, _, _, hafter, _⟩ := mintedUnder_of_run hnew hrun
    exact ⟨after, hafter⟩
  case h_2 => exact ⟨kernel, hnew⟩

theorem afterMints_loads (hnew : Kernel.new engine model = .ok kernel)
    (mints : List Mint) :
    ∃ after, Kernel.new engine (afterMints engine J model mints) =
      .ok after := by
  induction mints generalizing model kernel with
  | nil => exact ⟨kernel, hnew⟩
  | cons mint rest ih =>
      obtain ⟨next, hnext⟩ := next_loads (J := J) hnew mint
      exact ih hnext

end Minting

/-- After any chain of mints, a mint that succeeds adds a principal clamped to
its delegator; one that is refused changes nothing; and what may be granted is
refused only where the model's own schema does not take it. -/
theorem mints_attenuate {S P E C : Type} (engine : Engine S P E C) (J : Jose)
    {model : Model S P} {kernel : Kernel S P E}
    (hnew : Kernel.new engine model = .ok kernel) (mints : List Mint) :
    ∃ reached, Kernel.new engine (afterMints engine J model mints) =
        .ok reached ∧
      ∀ mint : Mint,
        (∀ out, mint.run engine J (afterMints engine J model mints) =
            .ok out →
          mint.next engine J (afterMints engine J model mints) = out.model ∧
          ∃ after d p, Kernel.new engine out.model = .ok after ∧
            MintedUnder mint reached.directory after.directory d p) ∧
        (∀ error, mint.run engine J (afterMints engine J model mints) =
            .error error →
          mint.next engine J (afterMints engine J model mints) =
            afterMints engine J model mints) ∧
        (mint.Grantable (afterMints engine J model mints).entities
            reached.directory →
          ∃ entities p, mint.proposed
              (afterMints engine J model mints).entities =
                some (entities, p) ∧
            ((∃ out, mint.run engine J (afterMints engine J model mints) =
                .ok out) ∨
              ∃ message, engine.readEntities
                  (afterMints engine J model mints).schema
                  (injectDerived entities (reached.directory.grown p)) =
                    .error message ∧
                mint.run engine J (afterMints engine J model mints) =
                  .error (.model (KernelError.entities message).text))) := by
  obtain ⟨reached, hreached⟩ := afterMints_loads (J := J) hnew mints
  refine ⟨reached, hreached, fun mint => ⟨?_, ?_, ?_⟩⟩
  · intro out hrun
    exact ⟨by rw [Mint.next, hrun], mintedUnder_of_run hreached hrun⟩
  · intro error hrun
    rw [Mint.next, hrun]
  · intro hgrantable
    obtain ⟨entities, p, hproposed, hrun⟩ :=
      run_of_grantable (J := J) hreached hgrantable
    refine ⟨entities, p, hproposed, ?_⟩
    rcases hrun with ⟨out, _, _, hrun⟩ | hrefused
    · exact Or.inl ⟨out, hrun⟩
    · exact Or.inr hrefused

/-! ## A sample -/

theorem digitChar_alphabet {value : ℕ} (hvalue : value < 16) :
    Nat.digitChar value ≠ '.' ∧
      RustText.isWhitespace (Nat.digitChar value) = false := by
  have hdigits : ∀ digit : Fin 16, Nat.digitChar digit ≠ '.' ∧
      RustText.isWhitespace (Nat.digitChar digit) = false := by decide
  exact hdigits ⟨value, hvalue⟩

theorem encode_alphabet (bytes : ByteText.Bytes) (c : Char)
    (hc : c ∈ (HexText.encode bytes).toList) :
    c ≠ '.' ∧ RustText.isWhitespace c = false := by
  simp only [HexText.encode, String.toList_ofList, HexText.encodeChars,
    List.mem_flatMap] at hc
  obtain ⟨byte, _, hpair⟩ := hc
  have hbyte : byte.toNat < 256 := byte.toNat_lt_size
  simp only [HexText.bytePair, List.mem_cons, List.not_mem_nil,
    or_false] at hpair
  rcases hpair with rfl | rfl
  · exact digitChar_alphabet (by omega)
  · exact digitChar_alphabet (by omega)

def sampleJose : Jose where
  toPlatform := samplePlatform
  encodeUrl := HexText.encode
  decodeUrl text :=
    match HexText.decode text with
    | some bytes => .ok bytes
    | none => .error "invalid digit"
  decodeUrl_encodeUrl bytes := by simp
  encodeUrl_alphabet := encode_alphabet

/-- A helper under alice, for a scope she holds and one she does not. -/
def sampleMint : Mint :=
  .exchange {
    delegatorId := "alice"
    subAgentId := "helper"
    requestedScopes := ["read", "root"]
    requestedExpiry := 1000
    now := 100
    mission := none
    aud := none } (sampleKey 1) []

theorem sampleMint_grantable {entities : Value} {dir : Graph.Directory}
    (hattrs : delegatorAttrs entities "alice" =
      some ("acme", 900, ["read", "move_money"]))
    (hfresh : dir.principals["helper"]? = none) :
    sampleMint.Grantable entities dir where
  vouched _ hmission := by cases hmission
  unreserved := by decide +kernel
  named := by decide
  fresh := hfresh
  current := ⟨"acme", 900, ["read", "move_money"], hattrs, by decide⟩

theorem sampleMint_admissible :
    ((Kernel.new (declaredEngine sampleFloats) sampleModel).toOption.bind
      fun kernel => (sampleMint.proposed sampleModel.entities).map
        fun (entities, p) => (kernel.directory.principals["helper"]?.isNone,
          ((declaredEngine sampleFloats).readEntities ()
            (injectDerived entities (kernel.directory.grown p))).isOk)) =
      some (true, true) := by
  decide +kernel

theorem mints_attenuate_sample :
    ∃ (reached after : Kernel Unit (List Policy) Cedar.Entities)
      (out : Exchanged Unit (List Policy)) (d p : PrincipalRec),
      sampleMint.run (declaredEngine sampleFloats) sampleJose sampleModel =
        .ok out ∧
      Kernel.new (declaredEngine sampleFloats) out.model = .ok after ∧
      MintedUnder sampleMint reached.directory after.directory d p := by
  obtain ⟨kernel, hkernel, hadmissible⟩ :=
    Option.bind_eq_some_iff.mp sampleMint_admissible
  have hnew : Kernel.new (declaredEngine sampleFloats) sampleModel =
      .ok kernel := toOption_eq_some.mp hkernel
  obtain ⟨⟨entities, p⟩, hproposed, hpair⟩ :=
    Option.map_eq_some_iff.mp hadmissible
  simp only [Prod.mk.injEq, Option.isNone_iff_eq_none] at hpair
  obtain ⟨hfresh, hread⟩ := hpair
  obtain ⟨reached, hreached, hmint⟩ := mints_attenuate
    (declaredEngine sampleFloats) sampleJose hnew []
  have hsame : reached = kernel := by
    have hok : Kernel.new (declaredEngine sampleFloats) sampleModel =
      .ok reached := hreached
    rw [hnew] at hok
    cases hok
    rfl
  subst hsame
  obtain ⟨hgranted, _, hgrantable⟩ := hmint sampleMint
  obtain ⟨entities', p', hproposed', hrun⟩ :=
    hgrantable (sampleMint_grantable (by decide +kernel) hfresh)
  have hpair : (entities', p') = (entities, p) :=
    Option.some.inj (hproposed'.symm.trans hproposed)
  cases hpair
  rcases hrun with ⟨out, hout⟩ | ⟨message, hmessage, _⟩
  · obtain ⟨_, after, d, p, hafter, hunder⟩ := hgranted out hout
    exact ⟨reached, after, out, d, p, hout, hafter, hunder⟩
  · have hmessage' : (declaredEngine sampleFloats).readEntities ()
        (injectDerived entities (reached.directory.grown p)) =
          .error message := hmessage
    rw [hmessage'] at hread
    cases hread

/-- A schema under which every principal states its department. -/
def departmentEngine :
    Engine Unit (List Policy) Cedar.Entities Cedar.Attrs where
  __ := declaredEngine sampleFloats
  readEntities schema entities :=
    if ((entities.asArray.getD []).all fun entity =>
        decide (((entity.get "uid").bind fun uid =>
          (uid.get "type").bind Value.asStr) ≠ some "Principal") ||
        ((entity.get "attrs").bind fun attrs =>
          (attrs.get "department").bind Value.asStr).isSome) then
      (declaredEngine sampleFloats).readEntities schema entities
    else .error "a Principal states no department"

/-- A model of that schema. -/
def departmentModel : Model Unit (List Policy) :=
  ⟨(), Policies.authority, .array [
    .object [
      ("uid", .object [("type", .string "Principal"),
        ("id", .string "alice")]),
      ("attrs", .object [("kind", .string "human"),
        ("tenant", .string "acme"),
        ("expiry", .number (.posInt 900)),
        ("scopes", .array [.string "read", .string "move_money"]),
        ("department", .string "retail")])]]⟩

theorem sampleMint_refused :
    ((Kernel.new departmentEngine departmentModel).toOption.bind fun kernel =>
      (sampleMint.proposed departmentModel.entities).map
        fun (entities, p) => (kernel.directory.principals["helper"]?.isNone,
          (departmentEngine.readEntities ()
            (injectDerived entities (kernel.directory.grown p))).isOk)) =
      some (true, false) := by
  decide +kernel

/-- A schema of the host's own may refuse what the graph would take. -/
theorem grantable_mint_refused :
    ¬ ∀ (S P E C : Type) (engine : Engine S P E C) (J : Jose)
        (model : Model S P) (kernel : Kernel S P E),
      Kernel.new engine model = .ok kernel →
      ∀ mint : Mint, mint.Grantable model.entities kernel.directory →
        ∃ out, mint.run engine J model = .ok out := by
  intro hclaim
  obtain ⟨kernel, hkernel, hrefused⟩ :=
    Option.bind_eq_some_iff.mp sampleMint_refused
  have hnew : Kernel.new departmentEngine departmentModel = .ok kernel :=
    toOption_eq_some.mp hkernel
  obtain ⟨⟨entities, p⟩, hproposed, hpair⟩ :=
    Option.map_eq_some_iff.mp hrefused
  simp only [Prod.mk.injEq, Option.isNone_iff_eq_none] at hpair
  obtain ⟨hfresh, hread⟩ := hpair
  have hgrantable : sampleMint.Grantable departmentModel.entities
      kernel.directory :=
    sampleMint_grantable (by decide +kernel) hfresh
  obtain ⟨out, hout⟩ := hclaim _ _ _ _ departmentEngine sampleJose
    departmentModel kernel hnew sampleMint hgrantable
  obtain ⟨entities', p', hproposed', hrun⟩ :=
    run_of_grantable (J := sampleJose) hnew hgrantable
  have hpair : (entities', p') = (entities, p) :=
    Option.some.inj (hproposed'.symm.trans hproposed)
  cases hpair
  rcases hrun with ⟨_, store, hstore, _⟩ | ⟨message, _, hran⟩
  · have hstore' : departmentEngine.readEntities ()
        (injectDerived entities (kernel.directory.grown p)) = .ok store :=
      hstore
    rw [hstore'] at hread
    cases hread
  · rw [hout] at hran
    cases hran

end Decern.Identity
