import Decern.AuthorityPolicies
import Decern.BreadthFirst
import Mathlib.Tactic

/-!
# The reach of a revocation

Who delegates from a principal, directly or through others, and who is
revoked with it: the walk down the delegations, the walk up, and what the
policies are told.
-/

namespace Decern.Graph.Directory

open BreadthFirst (Explored Expanding expand)
open Serde (Map Value)
open SuccessorChain (Chain revisit successor)

/-- The delegates of one tenant, under the principal each delegates from. -/
def delegatesOf (principals : List (String × PrincipalRec))
    (tenant : String) : StringMap (List String) :=
  principals.foldl (fun children entry =>
    if entry.2.tenant = tenant then
      match entry.2.delegator with
      | some delegator =>
          children.insert delegator
            ((children[delegator]?).getD [] ++ [entry.1])
      | none => children
    else children) ∅

/-- Every principal that delegates from this one, nearest first. -/
def descendantsOf (dir : Directory) (id : String) : List String :=
  match dir.principals[id]? with
  | none => []
  | some root =>
      let children := delegatesOf dir.principals.toList root.tenant
      expand (fun node => (children[node]?).getD [])
        (dir.principals.size + 1) ⟨[id], [id], []⟩

/-- The directory with the one flag set. -/
def revoke (dir : Directory) (id : String) : Directory :=
  match dir.principals[id]? with
  | none => dir
  | some p =>
      { dir with principals :=
          dir.principals.insert id { p with revoked := true } }

variable {dir : Directory} {id : String} {p : PrincipalRec}

/-! ## The inverted delegations -/

theorem getElem?_delegatesOf (principals : List (String × PrincipalRec))
    (tenant delegator : String) :
    ((delegatesOf principals tenant)[delegator]?).getD [] =
      (principals.filter fun entry => entry.2.tenant = tenant ∧
        entry.2.delegator = some delegator).map Prod.fst := by
  induction principals using List.reverseRecOn with
  | nil => simp [delegatesOf]
  | append_singleton principals entry ih =>
      rw [delegatesOf, List.foldl_append, ← delegatesOf, List.filter_append,
        List.map_append, ← ih]
      simp only [List.foldl_cons, List.foldl_nil]
      by_cases htenant : entry.2.tenant = tenant
      · cases hdelegator : entry.2.delegator with
        | none => simp [htenant, hdelegator]
        | some above =>
            simp only [htenant, if_true, Std.ExtTreeMap.getElem?_insert]
            by_cases habove : above = delegator
            · simp [htenant, hdelegator, habove]
            · simp [htenant, hdelegator, habove]
      · simp [htenant]

/-- The children of a node are the principals of the tenant that name it. -/
theorem mem_delegates_iff {tenant delegator child : String} :
    child ∈ ((delegatesOf dir.principals.toList tenant)[delegator]?).getD []
      ↔ ∃ p, dir.principals[child]? = some p ∧ p.tenant = tenant ∧
        p.delegator = some delegator := by
  rw [getElem?_delegatesOf, List.mem_map]
  simp only [List.mem_filter, decide_eq_true_eq,
    Std.ExtTreeMap.mem_toList_iff_getElem?_eq_some, Prod.exists,
    exists_and_right, exists_eq_right]

theorem delegatorOf_eq_some_iff {delegator : String} :
    dir.delegatorOf id = some delegator ↔
      ∃ p, dir.principals[id]? = some p ∧ p.delegator = some delegator := by
  rw [delegatorOf, successor, Option.bind_eq_some_iff]

/-- A validated directory's chains end, whatever ids its records carry. -/
theorem chain_ancestorsOf (hvalid : dir.validate = []) (id : String) :
    Chain dir.delegatorOf id (dir.ancestorsOf id) := by
  have hchain : ∃ rest, Chain dir.delegatorOf id rest := by
    cases hp : dir.principals[id]? with
    | none => exact ⟨[], .last (by simp [delegatorOf, successor, hp])⟩
    | some p =>
        have hcycles := (validate_eq_nil_iff.mp hvalid).2.1 p
          (mem_recordsOf.mpr ⟨id, hp⟩)
        have hrevisit := revisit_of_size_lt PrincipalRec.id
          PrincipalRec.delegator p (Nat.lt_succ_self dir.principals.size)
        rw [delegationCycles_eq_nil.mp hcycles] at hrevisit
        exact SuccessorChain.chain_of_revisit hp hrevisit
  obtain ⟨rest, hrest⟩ := hchain
  rwa [ancestorsOf_of_chain hrest]

/-- The ancestors of a delegate are its delegator and the ancestors above. -/
theorem ancestorsOf_of_delegator (hvalid : dir.validate = [])
    {delegator : String} (hlink : dir.delegatorOf id = some delegator) :
    dir.ancestorsOf id = delegator :: dir.ancestorsOf delegator :=
  ancestorsOf_of_chain (.link hlink (chain_ancestorsOf hvalid delegator))

/-! ## The walk down -/

section Down

variable {root : PrincipalRec} (hroot : dir.principals[id]? = some root)
include hroot

theorem explored_descendantsOf :
    Explored (fun node => ((delegatesOf dir.principals.toList
      root.tenant)[node]?).getD []) id (dir.descendantsOf id) := by
  have hmem (key : String) {q : PrincipalRec}
      (hq : dir.principals[key]? = some q) :
      key ∈ dir.principals.keys.toFinset := by
    rw [List.mem_toFinset, Std.ExtTreeMap.mem_keys,
      Std.ExtTreeMap.mem_iff_isSome_getElem?, hq]
    rfl
  have hcard := List.toFinset_card_le dir.principals.keys
  rw [Std.ExtTreeMap.length_keys] at hcard
  rw [descendantsOf, hroot]
  apply Expanding.explored (hmem id hroot) ?_
    (BreadthFirst.expanding_start id)
  · simp only [List.length_nil]
    omega
  · intro parent child hchild
    obtain ⟨q, hq, _⟩ := mem_delegates_iff.mp hchild
    exact hmem child hq

theorem ancestor_of_split (hvalid : dir.validate = []) (size : ℕ) :
    ∀ before node rest, before.length = size →
      dir.descendantsOf id = before ++ node :: rest →
      id ∈ dir.ancestorsOf node := by
  have hexplored := explored_descendantsOf hroot
  induction size using Nat.strong_induction_on with
  | _ size ih =>
      intro before node rest hsize hsplit
      obtain ⟨parent, hparent, hchild⟩ :=
        hexplored.after before node rest hsplit
      obtain ⟨p, hp, _, hdelegator⟩ := mem_delegates_iff.mp hchild
      have hlink := delegatorOf_eq_some_iff.mpr ⟨p, hp, hdelegator⟩
      rw [ancestorsOf_of_delegator hvalid hlink]
      rcases hparent with heq | hbefore
      · exact heq ▸ List.mem_cons_self
      · obtain ⟨first, last, hfirst⟩ := List.append_of_mem hbefore
        have hshorter : first.length < size := by
          rw [← hsize, hfirst]
          simp
        exact List.mem_cons_of_mem _ (ih first.length hshorter first parent
          (last ++ node :: rest) rfl (by rw [hsplit, hfirst]; simp))

theorem mem_descendantsOf_of_chain (hvalid : dir.validate = [])
    {node : String} {above : List String}
    (hchain : Chain dir.delegatorOf node above) (hmem : id ∈ above) :
    node ∈ dir.descendantsOf id := by
  have hexplored := explored_descendantsOf hroot
  induction hchain with
  | last => cases hmem
  | @link node parent rest hnext hrest ih =>
      have hlinked := Chain.link hnext hrest
      have hne : node ≠ id := fun heq => hlinked.notMem (heq ▸ hmem)
      obtain ⟨p, hp, hdelegator⟩ := delegatorOf_eq_some_iff.mp hnext
      obtain ⟨q, a, hq, ha, hwithin⟩ := chain_within hvalid hlinked id hmem
      rw [hp, Option.some.injEq] at hq
      rw [hroot, Option.some.injEq] at ha
      subst hq ha
      have hchild := mem_delegates_iff.mpr
        ⟨p, hp, hwithin.tenant, hdelegator⟩
      have hparent : parent ∈ id :: dir.descendantsOf id := by
        rcases List.mem_cons.mp hmem with heq | hbelow
        · exact heq ▸ List.mem_cons_self
        · exact List.mem_cons_of_mem _ (ih hbelow)
      have hout := hexplored.closed parent hparent node hchild
      exact (List.mem_cons.mp hout).resolve_left hne

/-- The walk down and the walk up find one relation. -/
theorem mem_descendantsOf_iff (hvalid : dir.validate = []) {node : String} :
    node ∈ dir.descendantsOf id ↔ id ∈ dir.ancestorsOf node := by
  constructor
  · intro hmem
    obtain ⟨before, rest, hsplit⟩ := List.append_of_mem hmem
    exact ancestor_of_split hroot hvalid _ before node rest rfl hsplit
  · exact mem_descendantsOf_of_chain hroot hvalid
      (chain_ancestorsOf hvalid node)

/-- A principal is listed after its delegator, unless that is the root. -/
theorem delegator_before {before rest : List String} {node : String}
    (hsplit : dir.descendantsOf id = before ++ node :: rest) :
    ∃ p delegator, dir.principals[node]? = some p ∧
      p.delegator = some delegator ∧
      (delegator = id ∨ delegator ∈ before) := by
  obtain ⟨parent, hparent, hchild⟩ :=
    (explored_descendantsOf hroot).after before node rest hsplit
  obtain ⟨p, hp, _, hdelegator⟩ := mem_delegates_iff.mp hchild
  exact ⟨p, parent, hp, hdelegator, hparent⟩

/-! ## The flag set -/

theorem getElem?_revoke (node : String) :
    (dir.revoke id).principals[node]? =
      if node = id then some { root with revoked := true }
      else dir.principals[node]? := by
  rw [revoke, hroot]
  simp only [Std.ExtTreeMap.getElem?_insert,
    Std.LawfulEqCmp.compare_eq_iff_eq]
  by_cases hnode : node = id
  · simp [hnode]
  · simp [hnode, Ne.symm hnode]

theorem delegatorOf_revoke : (dir.revoke id).delegatorOf = dir.delegatorOf := by
  funext node
  rw [delegatorOf, delegatorOf, successor, successor, getElem?_revoke hroot]
  by_cases hnode : node = id
  · simp [hnode, hroot]
  · simp [hnode]

theorem ancestorsOf_revoke (hvalid : dir.validate = []) (node : String) :
    (dir.revoke id).ancestorsOf node = dir.ancestorsOf node := by
  apply ancestorsOf_of_chain
  rw [delegatorOf_revoke hroot]
  exact chain_ancestorsOf hvalid node

/-- Revoked is who was, the principal itself, and whoever is below it. -/
theorem revoked_revoke (hvalid : dir.validate = []) (node : String) :
    (dir.revoke id).revoked node = true ↔
      dir.revoked node = true ∨ node = id ∨ node ∈ dir.descendantsOf id := by
  have hauthored (other : String) :
      (((dir.revoke id).principals[other]?).map
        PrincipalRec.revoked).getD false = true ↔
      other = id ∨ ((dir.principals[other]?).map
        PrincipalRec.revoked).getD false = true := by
    rw [getElem?_revoke hroot]
    by_cases hother : other = id
    · simp [hother]
    · simp [hother]
  simp only [revoked, Bool.or_eq_true, List.any_eq_true]
  rw [ancestorsOf_revoke hroot hvalid, mem_descendantsOf_iff hroot hvalid]
  simp only [hauthored]
  constructor
  · intro hrevoked
    rcases hrevoked with (heq | hown) | ⟨above, hmem, heq | habove⟩
    · exact Or.inr (Or.inl heq)
    · exact Or.inl (Or.inl hown)
    · exact Or.inr (Or.inr (heq ▸ hmem))
    · exact Or.inl (Or.inr ⟨above, hmem, habove⟩)
  · intro hcases
    rcases hcases with (hown | ⟨above, hmem, habove⟩) | heq | hmem
    · exact Or.inl (Or.inr hown)
    · exact Or.inr ⟨above, hmem, Or.inr habove⟩
    · exact Or.inl (Or.inl heq)
    · exact Or.inr ⟨id, hmem, Or.inl rfl⟩

end Down

/-! ## The whole law -/

/-- What a policy is told of a principal is what the walks answer. -/
def Told (dir : Directory) (id : String) (entity : Value) : Prop :=
  ∃ attrs : Map, attrsOf entity = some attrs ∧
    attrs.get "ancestors" =
      some (.array ((dir.ancestorsOf id).map principalRef)) ∧
    attrs.get "revoked" = some (.bool (dir.revoked id))

/-- Revoking a principal reaches itself and who is below it, and these are who
the walks and the injected attributes say they are. -/
structure RevocationReach (dir : Directory) : Prop where
  mirror : ∀ (x y : String) (p q : PrincipalRec),
    dir.principals[x]? = some p → dir.principals[y]? = some q →
    (x ∈ dir.descendantsOf y ↔ y ∈ dir.ancestorsOf x)
  nodup : ∀ (y : String) (q : PrincipalRec), dir.principals[y]? = some q →
    (dir.descendantsOf y).Nodup
  notSelf : ∀ (y : String) (q : PrincipalRec),
    dir.principals[y]? = some q → y ∉ dir.descendantsOf y
  after : ∀ (y : String) (q : PrincipalRec), dir.principals[y]? = some q →
    ∀ before x rest, dir.descendantsOf y = before ++ x :: rest →
    ∃ p delegator, dir.principals[x]? = some p ∧
      p.delegator = some delegator ∧ (delegator = y ∨ delegator ∈ before)
  withdrawn : ∀ (x y : String) (q : PrincipalRec),
    dir.principals[y]? = some q → x = y ∨ x ∈ dir.descendantsOf y →
    (dir.revoke y).revoked x = true
  untouched : ∀ (x y : String) (q : PrincipalRec),
    dir.principals[y]? = some q → x ≠ y → x ∉ dir.descendantsOf y →
    (dir.revoke y).revoked x = dir.revoked x
  told : ∀ entities : Value, Directory.parse entities = .ok dir →
    ∃ list, injectDerived entities dir = .array list ∧
      (∀ entity ∈ list, (uidOf entity).1 = "Principal" →
        dir.Told (uidOf entity).2 entity) ∧
      ∀ (id : String) (p : PrincipalRec), dir.principals[id]? = some p →
        ∃ entity ∈ list, uidOf entity = ("Principal", id) ∧
          dir.Told id entity

theorem told_withDerived {entity : Value} {attrs : Map}
    (hprincipal : (uidOf entity).1 = "Principal")
    (hattrs : attrsOf entity = some attrs) :
    dir.Told (uidOf entity).2 (withDerived dir entity) := by
  have hderived := @attrsOf_withDerived dir _ _ hattrs
  rw [if_pos hprincipal] at hderived
  exact ⟨_, hderived, by simp, by simp⟩

theorem told_of_parse {entities : Value}
    (hparse : Directory.parse entities = .ok dir) :
    ∃ list, injectDerived entities dir = .array list ∧
      (∀ entity ∈ list, (uidOf entity).1 = "Principal" →
        dir.Told (uidOf entity).2 entity) ∧
      ∀ (id : String) (p : PrincipalRec), dir.principals[id]? = some p →
        ∃ entity ∈ list, uidOf entity = ("Principal", id) ∧
          dir.Told id entity := by
  obtain ⟨list, rfl, hholds⟩ := parse_holds hparse
  refine ⟨list.map (withDerived dir), rfl, ?_, ?_⟩
  · rw [List.forall_mem_map]
    intro entity hentity hprincipal
    rw [uidOf_withDerived] at hprincipal ⊢
    obtain ⟨attrs, hattrs, _⟩ := hholds.kinds entity hentity
    exact told_withDerived hprincipal hattrs
  · intro id p hp
    obtain ⟨entity, hentity, huid, attrs, hattrs, _⟩ :=
      (hholds.principals id p).mp hp
    refine ⟨withDerived dir entity, List.mem_map_of_mem hentity, ?_, ?_⟩
    · rw [uidOf_withDerived, huid]
    · have htold : dir.Told (uidOf entity).2 (withDerived dir entity) :=
        told_withDerived (congrArg Prod.fst huid) hattrs
      rwa [huid] at htold

/-- A revocation reaches exactly the hierarchy below. -/
theorem revocation_reach (hvalid : dir.validate = []) :
    dir.RevocationReach where
  mirror x y _ q _ hq := mem_descendantsOf_iff hq hvalid
  nodup y q hq := (List.nodup_cons.mp (explored_descendantsOf hq).nodup).2
  notSelf y q hq := (List.nodup_cons.mp (explored_descendantsOf hq).nodup).1
  after y q hq before x rest hsplit := delegator_before hq hsplit
  withdrawn x y q hq hbelow := (revoked_revoke hq hvalid x).mpr (Or.inr hbelow)
  untouched x y q hq hne hout := by
    rw [Bool.eq_iff_iff, revoked_revoke hq hvalid x]
    simp [hne, hout]
  told entities hparse := told_of_parse hparse

theorem revocation_reach_sample : sampleGraph.RevocationReach :=
  revocation_reach (by decide)

end Decern.Graph.Directory
