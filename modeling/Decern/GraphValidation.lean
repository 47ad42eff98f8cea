import Decern.AuthorityGraph
import Decern.SuccessorChain
import Mathlib.Data.Finset.Sort
import Mathlib.Data.String.Basic
import Mathlib.Tactic

/-!
# Validation of the authority graph

The violations a directory is refused for at load, and what a directory
without one guarantees of every delegation chain, whatever its length.
-/

namespace Decern.Graph

open SuccessorChain (Chain MeetsCycle revisit successor)

/-- The tenant id kept for records of no tenant. -/
def reservedTenant : String := "__system__"

/-- The records of a map, in the order of their keys. -/
def recordsOf {N : Type} (map : StringMap N) : List N :=
  map.toList.map Prod.snd

def violation (wrong : Bool) (text : String) : List String :=
  if wrong then [text] else []

/-- Where the chain from a record first comes back to an id already seen. -/
def firstCycleId {N : Type} (idOf : N → String) (nextOf : N → Option String)
    (map : StringMap N) (start : N) : Option String :=
  (revisit nextOf (fun id => map[id]?) (map.size + 1) [idOf start]
    start).getD none

namespace Directory

variable (dir : Directory)

/-! ## Delegations -/

/-- What a delegate holds and its delegator does not. -/
def exceeding (kind : String) (held : PrincipalRec → Finset String)
    (p d : PrincipalRec) : List String :=
  violation (!decide (held p ⊆ held d))
    ("Principal::" ++ p.id ++ ": " ++ kind ++ " exceed delegator " ++ d.id ++
      " (excess: " ++ String.intercalate ", "
        ((held p \ held d).sort (· ≤ ·)) ++ ")")

def delegationViolations (p : PrincipalRec) : List String :=
  match p.delegator with
  | none => []
  | some delegator =>
      match dir.principals[delegator]? with
      | none =>
          ["Principal::" ++ p.id ++ ": delegator " ++ delegator ++
            " does not exist"]
      | some d =>
          violation (d.tenant != p.tenant)
            ("Principal::" ++ p.id ++ ": cross-tenant delegation (" ++
              p.tenant ++ " -> " ++ d.tenant ++ ")") ++
          violation (decide (d.expiry < p.expiry))
            ("Principal::" ++ p.id ++ ": expiry " ++ toString p.expiry ++
              " outlives delegator " ++ d.id ++ " expiry " ++
              toString d.expiry) ++
          exceeding "scopes" PrincipalRec.scopes p d ++
          exceeding "roles" PrincipalRec.roles p d ++
          exceeding "jurisdictions" PrincipalRec.jurisdictions p d

def delegationCycles (p : PrincipalRec) : List String :=
  match firstCycleId PrincipalRec.id PrincipalRec.delegator dir.principals
      p with
  | none => []
  | some via => ["Principal::" ++ p.id ++ ": delegation cycle via " ++ via]

/-! ## Resources -/

/-- A party of a resource must exist in the resource's tenant. -/
def partyViolations (missing elsewhere : String) (party : String)
    (r : ResourceRec) : List String :=
  match dir.principals[party]? with
  | none => [missing]
  | some p =>
      violation (p.tenant != r.tenant) (elsewhere ++ " is in tenant " ++
        p.tenant ++ " but resource is in tenant " ++ r.tenant)

def ownerViolations (r : ResourceRec) : List String :=
  dir.partyViolations
    ("Resource::" ++ r.id ++ ": owner " ++ r.owner ++ " does not exist")
    ("Resource::" ++ r.id ++ ": owner " ++
      ((dir.principals[r.owner]?).map PrincipalRec.id).getD r.owner)
    r.owner r

def viewerViolations (r : ResourceRec) (viewer : String) : List String :=
  dir.partyViolations
    ("Resource::" ++ r.id ++ ": viewer " ++ viewer ++ " does not exist")
    ("Resource::" ++ r.id ++ ": viewer " ++ viewer) viewer r

def resourceViolations (r : ResourceRec) : List String :=
  dir.ownerViolations r ++
    (r.viewers.sort (· ≤ ·)).flatMap (dir.viewerViolations r)

/-! ## Tenants and organizations -/

def reservedViolations (kind id tenant : String) : List String :=
  violation (tenant == reservedTenant)
    (kind ++ "::" ++ id ++ ": tenant \"" ++ reservedTenant ++
      "\" is reserved")

def parentViolations (o : OrgRec) : List String :=
  match o.parent with
  | none => []
  | some parent =>
      match dir.orgs[parent]? with
      | none =>
          ["Organization::" ++ o.id ++ ": parent " ++ parent ++
            " does not exist"]
      | some p =>
          violation (p.tenant != o.tenant)
            ("Organization::" ++ o.id ++ ": cross-tenant parent (" ++
              o.tenant ++ " -> " ++ p.tenant ++ ")")

def hierarchyCycles (o : OrgRec) : List String :=
  match firstCycleId OrgRec.id OrgRec.parent dir.orgs o with
  | none => []
  | some via => ["Organization::" ++ o.id ++ ": hierarchy cycle via " ++ via]

/-- A member's organization must exist in the member's tenant. -/
def memberViolations (kind member id tenant : String)
    (org : Option String) : List String :=
  match org with
  | none => []
  | some org =>
      match dir.orgs[org]? with
      | none => [kind ++ "::" ++ id ++ ": org " ++ org ++ " does not exist"]
      | some o =>
          violation (o.tenant != tenant)
            (kind ++ "::" ++ id ++ ": org " ++ o.id ++ " is in tenant " ++
              o.tenant ++ " but " ++ member ++ " is in tenant " ++ tenant)

/-- A resource's organization is its owner's, where both name one. -/
def ownershipViolations (r : ResourceRec) : List String :=
  match r.org, dir.principals[r.owner]? with
  | some org, some owner =>
      match owner.org with
      | some ownerOrg =>
          violation (ownerOrg != org)
            ("Resource::" ++ r.id ++ ": org " ++ org ++
              " differs from owner " ++ owner.id ++ "'s org " ++ ownerOrg)
      | none => []
  | _, _ => []

def validate : List String :=
  (recordsOf dir.principals).flatMap dir.delegationViolations ++
  (recordsOf dir.principals).flatMap dir.delegationCycles ++
  (recordsOf dir.resources).flatMap dir.resourceViolations ++
  (recordsOf dir.principals).flatMap
    (fun p => reservedViolations "Principal" p.id p.tenant) ++
  (recordsOf dir.resources).flatMap
    (fun r => reservedViolations "Resource" r.id r.tenant) ++
  (recordsOf dir.orgs).flatMap
    (fun o => reservedViolations "Organization" o.id o.tenant) ++
  (recordsOf dir.orgs).flatMap dir.parentViolations ++
  (recordsOf dir.orgs).flatMap dir.hierarchyCycles ++
  (recordsOf dir.principals).flatMap
    (fun p => dir.memberViolations "Principal" "principal" p.id p.tenant
      p.org) ++
  (recordsOf dir.resources).flatMap
    (fun r => dir.memberViolations "Resource" "resource" r.id r.tenant
      r.org ++ dir.ownershipViolations r)

end Directory

/-! ## What a validated directory guarantees -/

/-- One principal's authority lies within another's. -/
structure PrincipalRec.Within (p a : PrincipalRec) : Prop where
  tenant : p.tenant = a.tenant
  expiry : p.expiry ≤ a.expiry
  scopes : p.scopes ⊆ a.scopes
  roles : p.roles ⊆ a.roles
  jurisdictions : p.jurisdictions ⊆ a.jurisdictions

theorem PrincipalRec.Within.trans {p q a : PrincipalRec}
    (hfirst : p.Within q) (hsecond : q.Within a) : p.Within a where
  tenant := hfirst.tenant.trans hsecond.tenant
  expiry := Int64.le_trans hfirst.expiry hsecond.expiry
  scopes := hfirst.scopes.trans hsecond.scopes
  roles := hfirst.roles.trans hsecond.roles
  jurisdictions := hfirst.jurisdictions.trans hsecond.jurisdictions

namespace Directory

variable {dir : Directory} {id : String} {p : PrincipalRec}

/-- Every record is under its own id. -/
structure Keyed (dir : Directory) : Prop where
  principals : ∀ (id : String) (p : PrincipalRec),
    dir.principals[id]? = some p → p.id = id
  resources : ∀ (id : String) (r : ResourceRec),
    dir.resources[id]? = some r → r.id = id
  orgs : ∀ (id : String) (o : OrgRec), dir.orgs[id]? = some o → o.id = id

/-- The delegator of the principal of an id. -/
def delegatorOf (dir : Directory) : String → Option String :=
  successor PrincipalRec.delegator fun id => dir.principals[id]?

/-- The parent of the organization of an id. -/
def parentOf (dir : Directory) : String → Option String :=
  successor OrgRec.parent fun id => dir.orgs[id]?

/-- Every delegation stays within what was delegated from, down to a root;
every resource and organization stays in its tenant. -/
structure Bounded (dir : Directory) : Prop where
  ancestors : ∀ (id : String) (p : PrincipalRec),
    dir.principals[id]? = some p →
    ∀ a ∈ dir.ancestorsOf id, ∃ ancestor : PrincipalRec,
      dir.principals[a]? = some ancestor ∧ p.Within ancestor
  nodup : ∀ id : String, (id :: dir.ancestorsOf id).Nodup
  root : ∀ (id : String) (p : PrincipalRec),
    dir.principals[id]? = some p → ∃ root : PrincipalRec,
    dir.principals[(id :: dir.ancestorsOf id).getLast (by simp)]? =
        some root ∧ root.delegator = none
  owner : ∀ (id : String) (r : ResourceRec),
    dir.resources[id]? = some r → ∃ owner : PrincipalRec,
    dir.principals[r.owner]? = some owner ∧ owner.tenant = r.tenant
  viewers : ∀ (id : String) (r : ResourceRec),
    dir.resources[id]? = some r → ∀ viewer ∈ r.viewers,
    ∃ p : PrincipalRec, dir.principals[viewer]? = some p ∧ p.tenant = r.tenant
  orgs : ∀ (id : String) (o : OrgRec), dir.orgs[id]? = some o → ∃ above,
    Chain dir.parentOf id above ∧ (id :: above).Nodup ∧
      ∀ a ∈ above, ∃ org : OrgRec,
        dir.orgs[a]? = some org ∧ org.tenant = o.tenant

/-- A chain of the directory runs into a cycle or names what is not there. -/
def Astray (dir : Directory) : Prop :=
  (∃ (id : String) (p : PrincipalRec), dir.principals[id]? = some p ∧
      (MeetsCycle dir.delegatorOf id ∨
        ∃ d, p.delegator = some d ∧ dir.principals[d]? = none)) ∨
    ∃ (id : String) (o : OrgRec), dir.orgs[id]? = some o ∧
      (MeetsCycle dir.parentOf id ∨
        ∃ parent, o.parent = some parent ∧ dir.orgs[parent]? = none)

/-! ## The walk over a map -/

theorem mem_recordsOf {N : Type} {map : StringMap N} {item : N} :
    item ∈ recordsOf map ↔ ∃ id : String, map[id]? = some item := by
  simp only [recordsOf, List.mem_map, Prod.exists, exists_eq_right,
    Std.ExtTreeMap.mem_toList_iff_getElem?_eq_some]

section FirstCycle

variable {N : Type} {idOf : N → String} {nextOf : N → Option String}
  {map : StringMap N} {start : N}

variable (idOf nextOf start) in
/-- The walk has its answer after one turn for each record and one more, and
keeps it. -/
theorem revisit_of_size_lt {fuel : ℕ} (hfuel : map.size < fuel) :
    revisit nextOf (fun id => map[id]?) fuel [idOf start] start =
      some (firstCycleId idOf nextOf map start) := by
  have hsupport : ∀ id node, map[id]? = some node →
      id ∈ map.keys.toFinset := by
    intro id node hnode
    rw [List.mem_toFinset, Std.ExtTreeMap.mem_keys]
    exact Std.ExtTreeMap.mem_iff_isSome_getElem?.mpr (by simp [hnode])
  have hcard : (map.keys.toFinset \ [idOf start].toFinset).card <
      map.size + 1 := by
    have hkeys : map.keys.toFinset.card ≤ map.keys.length :=
      List.toFinset_card_le _
    have hsub := Finset.card_le_card (Finset.sdiff_subset
      (s := map.keys.toFinset) (t := [idOf start].toFinset))
    rw [Std.ExtTreeMap.length_keys] at hkeys
    omega
  have hsome := SuccessorChain.revisit_isSome nextOf start hsupport hcard
  obtain ⟨answer, hanswer⟩ := Option.isSome_iff_exists.mp hsome
  have hmore := SuccessorChain.revisit_mono hfuel hanswer
  rw [hmore, firstCycleId, hanswer]
  rfl

variable (idOf nextOf) in
/-- From a record under its own id the walk reports a cycle exactly when the
record meets one, and otherwise the record's chain ends. -/
theorem firstCycleId_spec (hstart : map[idOf start]? = some start) :
    (firstCycleId idOf nextOf map start = none ∧ ∃ rest,
        Chain (successor nextOf fun id => map[id]?) (idOf start) rest) ∨
      (firstCycleId idOf nextOf map start ≠ none ∧
        MeetsCycle (successor nextOf fun id => map[id]?) (idOf start)) := by
  have hrevisit := revisit_of_size_lt idOf nextOf start
    (Nat.lt_succ_self map.size)
  rcases SuccessorChain.revisit_spec nextOf hstart
      (by rw [hrevisit]; rfl) with ⟨hnone, hchain⟩ | ⟨⟨entry, hsome⟩, hcycle⟩
  · rw [hrevisit, Option.some.injEq] at hnone
    exact Or.inl ⟨hnone, hchain⟩
  · rw [hrevisit, Option.some.injEq] at hsome
    exact Or.inr ⟨by simp [hsome], hcycle⟩

end FirstCycle

/-- With a turn to spare, the collected ancestors are the whole chain. -/
theorem ancestorsFrom_of_chain {rest seen : List String} {fuel : ℕ}
    (hchain : Chain dir.delegatorOf id rest) (hfuel : rest.length < fuel)
    (hfresh : ∀ a ∈ rest, a ∉ seen) :
    dir.ancestorsFrom fuel seen dir.principals[id]? = rest := by
  have hnodup := hchain.nodup
  induction hchain generalizing fuel seen with
  | @last id hnone =>
      obtain ⟨fuel, rfl⟩ := Nat.exists_eq_add_one_of_ne_zero
        (show fuel ≠ 0 by omega)
      cases hp : dir.principals[id]? with
      | none => rfl
      | some p =>
          have hdelegator : p.delegator = none := by
            simpa [delegatorOf, successor, hp] using hnone
          simp [ancestorsFrom, hdelegator]
  | @link id d rest hnext hchain ih =>
      obtain ⟨fuel, rfl⟩ := Nat.exists_eq_add_one_of_ne_zero
        (show fuel ≠ 0 by omega)
      cases hp : dir.principals[id]? with
      | none => simp [delegatorOf, successor, hp] at hnext
      | some p =>
          have hdelegator : p.delegator = some d := by
            simpa [delegatorOf, successor, hp] using hnext
          have hd : d ∉ seen := hfresh d (by simp)
          have hlonger : rest.length < fuel := by simpa using hfuel
          have hunseen : ∀ a ∈ rest, a ∉ d :: seen := by
            intro a ha hseen
            rcases List.mem_cons.mp hseen with heq | hbefore
            · exact hchain.notMem (heq ▸ ha)
            · exact hfresh a (List.mem_cons_of_mem _ ha) hbefore
          have hrest := ih hlonger hunseen hchain.nodup
          simp only [ancestorsFrom, hdelegator, hd, if_false, hrest]

theorem ancestorsOf_of_chain {rest : List String}
    (hchain : Chain dir.delegatorOf id rest) :
    dir.ancestorsOf id = rest := by
  have hsupport : ∀ node after, dir.delegatorOf node = some after →
      node ∈ dir.principals.keys.toFinset := by
    intro node after hnext
    rw [List.mem_toFinset, Std.ExtTreeMap.mem_keys,
      Std.ExtTreeMap.mem_iff_isSome_getElem?]
    cases hp : dir.principals[node]? with
    | none => simp [delegatorOf, successor, hp] at hnext
    | some p => rfl
  have hlength := hchain.length_le hsupport
  have hcard := List.toFinset_card_le dir.principals.keys
  rw [Std.ExtTreeMap.length_keys] at hcard
  apply ancestorsFrom_of_chain hchain
  · omega
  · intro a ha hstart
    exact hchain.notMem (List.mem_singleton.mp hstart ▸ ha)

/-! ## Validation, rule by rule -/

theorem violation_eq_nil {wrong : Bool} {text : String} :
    violation wrong text = [] ↔ wrong = false := by
  cases wrong <;> simp [violation]

theorem validate_eq_nil_iff : dir.validate = [] ↔
    (∀ p ∈ recordsOf dir.principals, dir.delegationViolations p = []) ∧
    (∀ p ∈ recordsOf dir.principals, dir.delegationCycles p = []) ∧
    (∀ r ∈ recordsOf dir.resources, dir.resourceViolations r = []) ∧
    (∀ p ∈ recordsOf dir.principals,
      reservedViolations "Principal" p.id p.tenant = []) ∧
    (∀ r ∈ recordsOf dir.resources,
      reservedViolations "Resource" r.id r.tenant = []) ∧
    (∀ o ∈ recordsOf dir.orgs,
      reservedViolations "Organization" o.id o.tenant = []) ∧
    (∀ o ∈ recordsOf dir.orgs, dir.parentViolations o = []) ∧
    (∀ o ∈ recordsOf dir.orgs, dir.hierarchyCycles o = []) ∧
    (∀ p ∈ recordsOf dir.principals, dir.memberViolations "Principal"
      "principal" p.id p.tenant p.org = []) ∧
    ∀ r ∈ recordsOf dir.resources, dir.memberViolations "Resource"
        "resource" r.id r.tenant r.org = [] ∧
      dir.ownershipViolations r = [] := by
  simp only [validate, List.append_eq_nil_iff, List.flatMap_eq_nil_iff,
    and_assoc]

theorem delegation_within (hp : dir.delegationViolations p = [])
    {d : String} (hdelegator : p.delegator = some d) :
    ∃ delegator, dir.principals[d]? = some delegator ∧
      p.Within delegator := by
  simp only [delegationViolations, hdelegator] at hp
  cases hd : dir.principals[d]? with
  | none => simp [hd] at hp
  | some delegator =>
      simp only [hd, exceeding, List.append_eq_nil_iff,
        violation_eq_nil] at hp
      obtain ⟨⟨⟨⟨htenant, hexpiry⟩, hscopes⟩, hroles⟩, hclearances⟩ := hp
      have hsame : delegator.tenant = p.tenant := by simpa using htenant
      refine ⟨delegator, rfl, hsame.symm, ?_, ?_, ?_, ?_⟩
      · exact Int64.not_lt.mp (by simpa using hexpiry)
      · simpa using hscopes
      · simpa using hroles
      · simpa using hclearances

theorem party_exists {missing elsewhere party : String} {r : ResourceRec}
    (hparty : dir.partyViolations missing elsewhere party r = []) :
    ∃ p, dir.principals[party]? = some p ∧ p.tenant = r.tenant := by
  unfold partyViolations at hparty
  cases hp : dir.principals[party]? with
  | none => simp [hp] at hparty
  | some p =>
      rw [hp] at hparty
      exact ⟨p, rfl, by simpa using violation_eq_nil.mp hparty⟩

theorem parent_exists {o : OrgRec} (ho : dir.parentViolations o = [])
    {parent : String} (hparent : o.parent = some parent) :
    ∃ above, dir.orgs[parent]? = some above ∧ above.tenant = o.tenant := by
  simp only [parentViolations, hparent] at ho
  cases habove : dir.orgs[parent]? with
  | none => simp [habove] at ho
  | some above =>
      rw [habove] at ho
      exact ⟨above, rfl, by simpa using violation_eq_nil.mp ho⟩

theorem delegationCycles_eq_nil :
    dir.delegationCycles p = [] ↔
      firstCycleId PrincipalRec.id PrincipalRec.delegator dir.principals p =
        none := by
  unfold delegationCycles
  split <;> simp_all

theorem hierarchyCycles_eq_nil {o : OrgRec} :
    dir.hierarchyCycles o = [] ↔
      firstCycleId OrgRec.id OrgRec.parent dir.orgs o = none := by
  unfold hierarchyCycles
  split <;> simp_all

/-! ## The whole graph -/

/-- The principal of the one id is within the principal of the other. -/
def Attenuates (dir : Directory) (id above : String) : Prop :=
  ∃ p a : PrincipalRec, dir.principals[id]? = some p ∧
    dir.principals[above]? = some a ∧ p.Within a

theorem Attenuates.trans {first second third : String}
    (hfirst : dir.Attenuates first second)
    (hsecond : dir.Attenuates second third) :
    dir.Attenuates first third := by
  obtain ⟨p, q, hp, hq, hpq⟩ := hfirst
  obtain ⟨q', a, hq', ha, hqa⟩ := hsecond
  rw [hq, Option.some.injEq] at hq'
  subst hq'
  exact ⟨p, a, hp, ha, hpq.trans hqa⟩

section Validated

variable (hkeyed : dir.Keyed)
include hkeyed

theorem cyclesFound_iff (hp : dir.principals[id]? = some p) :
    (dir.delegationCycles p = [] ∧ ∃ rest, Chain dir.delegatorOf id rest) ∨
      (dir.delegationCycles p ≠ [] ∧ MeetsCycle dir.delegatorOf id) := by
  have hid := hkeyed.principals id p hp
  have hspec := firstCycleId_spec PrincipalRec.id PrincipalRec.delegator
    (show dir.principals[p.id]? = some p by rw [hid, hp])
  rw [hid] at hspec
  rw [ne_eq, delegationCycles_eq_nil]
  exact hspec

theorem hierarchyCyclesFound_iff {o : OrgRec}
    (ho : dir.orgs[id]? = some o) :
    (dir.hierarchyCycles o = [] ∧ ∃ above, Chain dir.parentOf id above) ∨
      (dir.hierarchyCycles o ≠ [] ∧ MeetsCycle dir.parentOf id) := by
  have hid := hkeyed.orgs id o ho
  have hspec := firstCycleId_spec OrgRec.id OrgRec.parent
    (show dir.orgs[o.id]? = some o by rw [hid, ho])
  rw [hid] at hspec
  rw [ne_eq, hierarchyCycles_eq_nil]
  exact hspec

/-- A validated directory's chains end. -/
theorem chain_of_validate (hvalid : dir.validate = []) (id : String) :
    Chain dir.delegatorOf id (dir.ancestorsOf id) := by
  have hchain : ∃ rest, Chain dir.delegatorOf id rest := by
    cases hp : dir.principals[id]? with
    | none => exact ⟨[], .last (by simp [delegatorOf, successor, hp])⟩
    | some p =>
        have hcycles := (validate_eq_nil_iff.mp hvalid).2.1 p
          (mem_recordsOf.mpr ⟨id, hp⟩)
        rcases cyclesFound_iff hkeyed hp with ⟨_, hrest⟩ | ⟨hfound, _⟩
        · exact hrest
        · exact absurd hcycles hfound
  obtain ⟨rest, hrest⟩ := hchain
  rwa [ancestorsOf_of_chain hrest]

omit hkeyed in
/-- One link down a validated directory stays within the authority above. -/
theorem link_within (hvalid : dir.validate = []) {d : String}
    (hlink : dir.delegatorOf id = some d) : dir.Attenuates id d := by
  cases hp : dir.principals[id]? with
  | none => simp [delegatorOf, successor, hp] at hlink
  | some p =>
      have hdelegator : p.delegator = some d := by
        simpa [delegatorOf, successor, hp] using hlink
      obtain ⟨delegator, hd, hwithin⟩ := delegation_within
        ((validate_eq_nil_iff.mp hvalid).1 p (mem_recordsOf.mpr ⟨id, hp⟩))
        hdelegator
      exact ⟨p, delegator, hp, hd, hwithin⟩

omit hkeyed in
theorem chain_within (hvalid : dir.validate = []) {rest : List String}
    (hchain : Chain dir.delegatorOf id rest) :
    ∀ a ∈ rest, dir.Attenuates id a :=
  hchain.related (fun _ _ hlink => link_within hvalid hlink)
    fun _ _ _ hfirst hsecond => hfirst.trans hsecond

omit hkeyed in
theorem root_of_chain (hvalid : dir.validate = []) {rest : List String}
    (hchain : Chain dir.delegatorOf id rest)
    (hp : dir.principals[id]? = some p) : ∃ root : PrincipalRec,
      dir.principals[(id :: rest).getLast (by simp)]? = some root ∧
        root.delegator = none := by
  induction hchain generalizing p with
  | last hnone =>
      refine ⟨p, hp, ?_⟩
      simpa [delegatorOf, successor, hp] using hnone
  | link hnext hchain ih =>
      obtain ⟨_, delegator, _, hd, _⟩ := link_within hvalid hnext
      obtain ⟨root, hroot, hnone⟩ := ih hd
      exact ⟨root, by rwa [List.getLast_cons (by simp)], hnone⟩

theorem hierarchy_of_validate (hvalid : dir.validate = []) {o : OrgRec}
    (ho : dir.orgs[id]? = some o) : ∃ above,
      Chain dir.parentOf id above ∧ (id :: above).Nodup ∧
        ∀ a ∈ above, ∃ org : OrgRec,
          dir.orgs[a]? = some org ∧ org.tenant = o.tenant := by
  have hrules := validate_eq_nil_iff.mp hvalid
  obtain ⟨above, hchain⟩ : ∃ above, Chain dir.parentOf id above := by
    rcases hierarchyCyclesFound_iff hkeyed ho with ⟨_, habove⟩ | ⟨hfound, _⟩
    · exact habove
    · exact absurd (hrules.2.2.2.2.2.2.2.1 o (mem_recordsOf.mpr ⟨id, ho⟩))
        hfound
  have hlink : ∀ node after, dir.parentOf node = some after →
      ∃ o above : OrgRec, dir.orgs[node]? = some o ∧
        dir.orgs[after]? = some above ∧ above.tenant = o.tenant := by
    intro node after hnext
    cases hnode : dir.orgs[node]? with
    | none => simp [parentOf, successor, hnode] at hnext
    | some o =>
        have hparent : o.parent = some after := by
          simpa [parentOf, successor, hnode] using hnext
        obtain ⟨above, habove, htenant⟩ := parent_exists
          (hrules.2.2.2.2.2.2.1 o (mem_recordsOf.mpr ⟨node, hnode⟩)) hparent
        exact ⟨o, above, rfl, habove, htenant⟩
  refine ⟨above, hchain, hchain.nodup, fun a ha => ?_⟩
  have hrelated := hchain.related hlink (fun first second third h h' => by
    obtain ⟨o, q, ho, hq, htenant⟩ := h
    obtain ⟨q', a, hq', ha, htenant'⟩ := h'
    rw [hq, Option.some.injEq] at hq'
    subst hq'
    exact ⟨o, a, ho, ha, htenant'.trans htenant⟩) a ha
  obtain ⟨o', org, ho', horg, htenant⟩ := hrelated
  rw [ho, Option.some.injEq] at ho'
  subst ho'
  exact ⟨org, horg, htenant⟩

theorem bounded_of_validate (hvalid : dir.validate = []) : dir.Bounded := by
  have hrules := validate_eq_nil_iff.mp hvalid
  have hresource : ∀ (id : String) (r : ResourceRec), dir.resources[id]? = some r →
      dir.ownerViolations r = [] ∧
        ∀ viewer ∈ r.viewers, dir.viewerViolations r viewer = [] := by
    intro id r hr
    have hnone := hrules.2.2.1 r (mem_recordsOf.mpr ⟨id, hr⟩)
    simpa [resourceViolations] using hnone
  have hchain := chain_of_validate hkeyed hvalid
  constructor
  · intro id p hp a ha
    obtain ⟨p', ancestor, hp', hancestor, hwithin⟩ :=
      chain_within hvalid (hchain id) a ha
    rw [hp, Option.some.injEq] at hp'
    subst hp'
    exact ⟨ancestor, hancestor, hwithin⟩
  · exact fun id => (hchain id).nodup
  · exact fun id p hp => root_of_chain hvalid (hchain id) hp
  · exact fun id r hr => party_exists (hresource id r hr).1
  · exact fun id r hr viewer hviewer =>
      party_exists ((hresource id r hr).2 viewer hviewer)
  · exact fun id o ho => hierarchy_of_validate hkeyed hvalid ho

theorem validate_ne_nil_of_astray (hastray : dir.Astray) :
    dir.validate ≠ [] := by
  intro hvalid
  have hrules := validate_eq_nil_iff.mp hvalid
  rcases hastray with ⟨id, p, hp, hbad⟩ | ⟨id, o, ho, hbad⟩
  · rcases hbad with hcycle | ⟨d, hdelegator, hmissing⟩
    · exact (chain_of_validate hkeyed hvalid id).not_meetsCycle hcycle
    · obtain ⟨delegator, hd, _⟩ := delegation_within
        (hrules.1 p (mem_recordsOf.mpr ⟨id, hp⟩)) hdelegator
      rw [hmissing] at hd
      cases hd
  · rcases hbad with hcycle | ⟨parent, hparent, hmissing⟩
    · obtain ⟨above, hchain, _⟩ := hierarchy_of_validate hkeyed hvalid ho
      exact hchain.not_meetsCycle hcycle
    · obtain ⟨above, habove, _⟩ := parent_exists
        (hrules.2.2.2.2.2.2.1 o (mem_recordsOf.mpr ⟨id, ho⟩)) hparent
      rw [hmissing] at habove
      cases habove

/-- A directory without a violation bounds every delegation, a directory with
a chain that goes astray has one, and the walk behind it ends on every map. -/
theorem validation_bounds_delegation :
    (dir.validate = [] → dir.Bounded) ∧
      (dir.Astray → dir.validate ≠ []) ∧
      ∀ (N : Type) (idOf : N → String) (nextOf : N → Option String)
        (map : StringMap N) (start : N) (fuel : ℕ), map.size < fuel →
        revisit nextOf (fun id => map[id]?) fuel [idOf start] start =
          some (firstCycleId idOf nextOf map start) :=
  ⟨bounded_of_validate hkeyed, validate_ne_nil_of_astray hkeyed,
    fun _ _ _ _ _ _ hfuel => revisit_of_size_lt _ _ _ hfuel⟩

end Validated

/-- An agent under the principal it delegates from. -/
def sampleGraph : Directory :=
  { principals := ((∅ : StringMap PrincipalRec).insert "corp"
      { id := "corp", kind := "Human", tenant := "A", expiry := 1000
        scopes := {"read", "move_money"} }).insert "agent"
      { id := "agent", kind := "Agent", tenant := "A", expiry := 500
        scopes := {"read"}, delegator := some "corp" } }

theorem sampleGraph_keyed : sampleGraph.Keyed where
  principals id p hp := by
    simp only [sampleGraph, Std.ExtTreeMap.getElem?_insert] at hp
    grind
  resources id r hr := by simp [sampleGraph] at hr
  orgs id o ho := by simp [sampleGraph] at ho

theorem validation_bounds_delegation_sample : sampleGraph.Bounded :=
  (validation_bounds_delegation sampleGraph_keyed).1 (by decide)

end Directory

end Decern.Graph
