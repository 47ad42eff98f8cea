import Decern.GraphParse
import Mathlib.Tactic

/-!
# A validated graph and one principal more

A delegate that is within its delegator's authority is added to a validated
graph without a violation, and nothing that was in the graph changes.
-/

namespace Decern.Graph.Directory

open SuccessorChain (Chain successor)

/-- The directory with a principal under its id. -/
def grown (dir : Directory) (p : PrincipalRec) : Directory :=
  { dir with principals := dir.principals.insert p.id p }

section Grown

variable {dir : Directory} {p d : PrincipalRec} {id delegator : String}

theorem getElem?_grown (id : String) :
    (dir.grown p).principals[id]? =
      if p.id = id then some p else dir.principals[id]? := by
  rw [grown, Std.ExtTreeMap.getElem?_insert]
  by_cases hid : p.id = id
  · simp [hid]
  · simp [hid]

theorem getElem?_grown_self : (dir.grown p).principals[p.id]? = some p := by
  simp [getElem?_grown]

theorem keyed_grown (hkeyed : dir.Keyed) : (dir.grown p).Keyed where
  principals id q hq := by
    rw [getElem?_grown] at hq
    split_ifs at hq with hid
    · cases hq
      exact hid
    · exact hkeyed.principals id q hq
  resources := hkeyed.resources
  orgs := hkeyed.orgs

theorem mem_records_grown {q : PrincipalRec}
    (hq : q ∈ recordsOf (dir.grown p).principals) :
    q = p ∨ ∃ id : String, dir.principals[id]? = some q := by
  obtain ⟨id, hid⟩ := mem_recordsOf.mp hq
  rw [getElem?_grown] at hid
  split_ifs at hid
  · cases hid
    exact Or.inl rfl
  · exact Or.inr ⟨id, hid⟩

variable (hfresh : dir.principals[p.id]? = none)
include hfresh

theorem getElem?_grown_of_some {q : PrincipalRec}
    (hq : dir.principals[id]? = some q) :
    (dir.grown p).principals[id]? = some q := by
  have hne : p.id ≠ id := by
    rintro rfl
    rw [hfresh] at hq
    cases hq
  rw [getElem?_grown, if_neg hne, hq]

/-! ## Chains -/

theorem delegatorOf_grown {q : PrincipalRec}
    (hq : dir.principals[id]? = some q) :
    (dir.grown p).delegatorOf id = dir.delegatorOf id := by
  simp [delegatorOf, successor, getElem?_grown_of_some hfresh hq, hq]

/-- The chain of a principal that was in the graph stays what it was. -/
theorem chain_grown (hvalid : dir.validate = []) {rest : List String}
    {q : PrincipalRec} (hq : dir.principals[id]? = some q)
    (hchain : Chain dir.delegatorOf id rest) :
    Chain (dir.grown p).delegatorOf id rest := by
  induction hchain generalizing q with
  | last hnone =>
      apply Chain.last
      rw [delegatorOf_grown hfresh hq]
      exact hnone
  | link hnext _ ih =>
      obtain ⟨_, above, _, habove, _⟩ := link_within hvalid hnext
      apply Chain.link
      · rw [delegatorOf_grown hfresh hq]
        exact hnext
      · exact ih habove

section Delegated

variable (hkeyed : dir.Keyed) (hvalid : dir.validate = [])
  (hdelegator : p.delegator = some delegator)
  (hd : dir.principals[delegator]? = some d)
include hkeyed hvalid hdelegator hd

theorem chain_grown_self :
    Chain (dir.grown p).delegatorOf p.id
      (delegator :: dir.ancestorsOf delegator) := by
  apply Chain.link
  · simp [delegatorOf, successor, getElem?_grown_self, hdelegator]
  · exact chain_grown hfresh hvalid hd
      (chain_of_validate hkeyed hvalid delegator)

end Delegated

/-! ## Validation -/

theorem delegationViolations_grown {q : PrincipalRec}
    (hq : dir.delegationViolations q = []) :
    (dir.grown p).delegationViolations q = [] := by
  cases hdelegator : q.delegator with
  | none => simp [delegationViolations, hdelegator]
  | some above =>
      obtain ⟨a, ha, _⟩ := delegation_within hq hdelegator
      simp only [delegationViolations, hdelegator, ha] at hq
      simpa only [delegationViolations, hdelegator,
        getElem?_grown_of_some hfresh ha] using hq

omit hfresh in
theorem delegationViolations_of_within
    (hdelegator : p.delegator = some delegator)
    (hd : dir.principals[delegator]? = some d) (hwithin : p.Within d) :
    dir.delegationViolations p = [] := by
  have hexpiry : ¬ d.expiry < p.expiry := Int64.not_lt.mpr hwithin.expiry
  simp [delegationViolations, hdelegator, hd, exceeding, violation,
    hwithin.tenant, hexpiry, hwithin.scopes, hwithin.roles,
    hwithin.jurisdictions]

theorem partyViolations_grown {missing elsewhere party : String}
    {r : ResourceRec}
    (hparty : dir.partyViolations missing elsewhere party r = []) :
    (dir.grown p).partyViolations missing elsewhere party r = [] := by
  obtain ⟨q, hq, _⟩ := party_exists hparty
  simp only [partyViolations, hq] at hparty
  simpa only [partyViolations, getElem?_grown_of_some hfresh hq] using hparty

theorem resourceViolations_grown {r : ResourceRec}
    (hr : dir.resourceViolations r = []) :
    (dir.grown p).resourceViolations r = [] := by
  rw [resourceViolations, List.append_eq_nil_iff,
    List.flatMap_eq_nil_iff] at hr ⊢
  obtain ⟨howner, hviewers⟩ := hr
  constructor
  · obtain ⟨q, hq, _⟩ := party_exists howner
    have hgrown := partyViolations_grown hfresh howner
    simpa only [ownerViolations, getElem?_grown_of_some hfresh hq, hq] using
      hgrown
  · intro viewer hviewer
    exact partyViolations_grown hfresh (hviewers viewer hviewer)

theorem ownershipViolations_grown {r : ResourceRec} {q : PrincipalRec}
    (howner : dir.principals[r.owner]? = some q)
    (hr : dir.ownershipViolations r = []) :
    (dir.grown p).ownershipViolations r = [] := by
  simpa only [ownershipViolations, howner,
    getElem?_grown_of_some hfresh howner] using hr

/-- A delegate within its delegator leaves a validated graph valid. -/
theorem validate_grown (hkeyed : dir.Keyed) (hvalid : dir.validate = [])
    (hdelegator : p.delegator = some delegator)
    (hd : dir.principals[delegator]? = some d) (hwithin : p.Within d)
    (horg : p.org = none) : (dir.grown p).validate = [] := by
  have hrules := validate_eq_nil_iff.mp hvalid
  obtain ⟨hdelegations, hcycles, hresources, hreserved, hreservedResources,
    hreservedOrgs, hparents, hhierarchies, hmembers, howned⟩ := hrules
  have hdelegatorMem : d ∈ recordsOf dir.principals :=
    mem_recordsOf.mpr ⟨delegator, hd⟩
  apply validate_eq_nil_iff.mpr
  refine ⟨?_, ?_, ?_, ?_, hreservedResources, hreservedOrgs, hparents,
    hhierarchies, ?_, ?_⟩
  · intro q hq
    rcases mem_records_grown hq with rfl | ⟨id, hid⟩
    · exact delegationViolations_of_within hdelegator
        (getElem?_grown_of_some hfresh hd) hwithin
    · exact delegationViolations_grown hfresh
        (hdelegations q (mem_recordsOf.mpr ⟨id, hid⟩))
  · intro q hq
    have hkeyed' : (dir.grown p).Keyed := keyed_grown hkeyed
    rcases mem_records_grown hq with rfl | ⟨id, hid⟩
    · rcases cyclesFound_iff hkeyed' getElem?_grown_self with
        ⟨hnone, _⟩ | ⟨_, hcycle⟩
      · exact hnone
      · exact absurd hcycle (chain_grown_self hfresh hkeyed hvalid
          hdelegator hd).not_meetsCycle
    · rcases cyclesFound_iff hkeyed'
        (getElem?_grown_of_some hfresh hid) with ⟨hnone, _⟩ | ⟨_, hcycle⟩
      · exact hnone
      · exact absurd hcycle (chain_grown hfresh hvalid hid
          (chain_of_validate hkeyed hvalid id)).not_meetsCycle
  · intro r hr
    exact resourceViolations_grown hfresh (hresources r hr)
  · intro q hq
    rcases mem_records_grown hq with rfl | ⟨id, hid⟩
    · have htenant := hreserved d hdelegatorMem
      rw [reservedViolations, violation_eq_nil] at htenant ⊢
      rwa [hwithin.tenant]
    · exact hreserved q (mem_recordsOf.mpr ⟨id, hid⟩)
  · intro q hq
    rcases mem_records_grown hq with rfl | ⟨id, hid⟩
    · simp [memberViolations, horg]
    · exact hmembers q (mem_recordsOf.mpr ⟨id, hid⟩)
  · intro r hr
    obtain ⟨hmember, hownership⟩ := howned r hr
    have howner := hresources r hr
    rw [resourceViolations, List.append_eq_nil_iff] at howner
    obtain ⟨q, hq, _⟩ := party_exists howner.1
    exact ⟨hmember, ownershipViolations_grown hfresh hq hownership⟩

end Grown

end Decern.Graph.Directory
