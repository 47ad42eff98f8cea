import Mathlib.Data.Finset.Card
import Mathlib.Logic.Relation
import Mathlib.Tactic

/-!
# Chains of a partial successor

A partial function from each node to the one after it, the whole chain from a
node to its end, and the walk that looks for the node where a chain first
meets itself.
-/

namespace SuccessorChain

/-- The whole chain after a node; its last node has no successor. -/
inductive Chain {α : Type*} (next : α → Option α) : α → List α → Prop
  | last {node : α} (hnone : next node = none) : Chain next node []
  | link {node after : α} {rest : List α} (hnext : next node = some after)
      (hchain : Chain next after rest) : Chain next node (after :: rest)

def Link {α : Type*} (next : α → Option α) (node after : α) : Prop :=
  next node = some after

/-- The node lies on a cycle, or its chain runs into one. -/
def MeetsCycle {α : Type*} (next : α → Option α) (node : α) : Prop :=
  ∃ entry, Relation.ReflTransGen (Link next) node entry ∧
    Relation.TransGen (Link next) entry entry

section Chains

variable {α : Type*} {next : α → Option α} {node after other : α}
  {rest tail : List α}

theorem Chain.unique (hchain : Chain next node rest)
    (hother : Chain next node tail) : rest = tail := by
  induction hchain generalizing tail with
  | last hnone =>
      cases hother with
      | last => rfl
      | link hnext => simp [hnone] at hnext
  | link hnext _ ih =>
      cases hother with
      | last hnone => simp [hnone] at hnext
      | link hnext' hchain' =>
          rw [hnext, Option.some.injEq] at hnext'
          subst hnext'
          rw [ih hchain']

/-- Every node of a chain has a chain of its own, and a shorter one. -/
theorem Chain.of_mem (hchain : Chain next node rest) (hmem : other ∈ rest) :
    ∃ tail, Chain next other tail ∧ tail.length < rest.length := by
  induction hchain with
  | last => simp at hmem
  | @link _ after rest _ hchain ih =>
      rcases List.mem_cons.mp hmem with heq | hrest
      · subst heq
        exact ⟨rest, hchain, by simp⟩
      · obtain ⟨tail, htail, hlength⟩ := ih hrest
        exact ⟨tail, htail, by simp; omega⟩

theorem Chain.notMem (hchain : Chain next node rest) : node ∉ rest := by
  intro hmem
  obtain ⟨tail, htail, hlength⟩ := hchain.of_mem hmem
  rw [hchain.unique htail] at hlength
  exact lt_irrefl _ hlength

theorem Chain.nodup (hchain : Chain next node rest) :
    (node :: rest).Nodup := by
  induction hchain with
  | last => simp
  | link hnext hchain ih =>
      exact List.nodup_cons.mpr ⟨(Chain.link hnext hchain).notMem, ih⟩

theorem Chain.mem_of_transGen (hchain : Chain next node rest)
    (hreach : Relation.TransGen (Link next) node other) : other ∈ rest := by
  induction hreach using Relation.TransGen.head_induction_on
    generalizing rest with
  | single hlink =>
      cases hchain with
      | last hnone => simp [Link, hnone] at hlink
      | link hnext =>
          rw [Link, hnext, Option.some.injEq] at hlink
          simp [hlink]
  | head hlink _ ih =>
      cases hchain with
      | last hnone => simp [Link, hnone] at hlink
      | link hnext hrest =>
          rw [Link, hnext, Option.some.injEq] at hlink
          subst hlink
          exact List.mem_cons_of_mem _ (ih hrest)

/-- A chain that ends runs into no cycle. -/
theorem Chain.not_meetsCycle (hchain : Chain next node rest) :
    ¬ MeetsCycle next node := by
  rintro ⟨entry, hreach, hcycle⟩
  have htail : ∃ tail, Chain next entry tail := by
    rcases Relation.reflTransGen_iff_eq_or_transGen.mp hreach with heq | htrans
    · subst heq
      exact ⟨rest, hchain⟩
    · obtain ⟨tail, htail, _⟩ := hchain.of_mem (hchain.mem_of_transGen htrans)
      exact ⟨tail, htail⟩
  obtain ⟨tail, htail⟩ := htail
  exact htail.notMem (htail.mem_of_transGen hcycle)

/-- What each link establishes, and what composes, holds down a chain. -/
theorem Chain.related {Related : α → α → Prop}
    (hlink : ∀ node after, next node = some after → Related node after)
    (htrans : ∀ first second third, Related first second →
      Related second third → Related first third)
    (hchain : Chain next node rest) : ∀ other ∈ rest, Related node other := by
  induction hchain with
  | last => simp
  | link hnext _ ih =>
      intro other hmem
      rcases List.mem_cons.mp hmem with heq | hrest
      · exact heq ▸ hlink _ _ hnext
      · exact htrans _ _ _ (hlink _ _ hnext) (ih other hrest)

/-- A chain is no longer than the set of nodes that have a successor. -/
theorem Chain.length_le [DecidableEq α] {support : Finset α}
    (hsupport : ∀ node after, next node = some after → node ∈ support)
    (hchain : Chain next node rest) : rest.length ≤ support.card := by
  have hsubset : ∀ item ∈ (node :: rest).dropLast, item ∈ support := by
    induction hchain with
    | last => simp
    | @link node after rest hnext hchain ih =>
        intro item hitem
        rw [List.dropLast_cons_of_ne_nil (by simp)] at hitem
        rcases List.mem_cons.mp hitem with heq | hrest
        · exact heq ▸ hsupport _ _ hnext
        · exact ih item hrest
  have hnodup : (node :: rest).dropLast.Nodup :=
    hchain.nodup.sublist (List.dropLast_sublist _)
  have hcard := Finset.card_le_card (s := (node :: rest).dropLast.toFinset)
    (t := support) (fun item hitem =>
      hsubset item (List.mem_toFinset.mp hitem))
  rw [List.toFinset_card_of_nodup hnodup] at hcard
  simpa using hcard

end Chains

/-! ## The walk -/

section Walk

variable {ι N : Type*} [DecidableEq ι] (nextOf : N → Option ι)
  (lookup : ι → Option N)

/-- Where the chain from a node first comes back to a node already seen;
no answer while the walk is still going. -/
def revisit : ℕ → List ι → N → Option (Option ι)
  | 0, _, _ => none
  | fuel + 1, seen, node =>
      match nextOf node with
      | none => some none
      | some next =>
          if next ∈ seen then some (some next)
          else
            match lookup next with
            | none => some none
            | some found => revisit fuel (next :: seen) found

/-- The successor of an id: what the node it names points to. -/
def successor (id : ι) : Option ι :=
  (lookup id).bind nextOf

variable {nextOf lookup} {seen : List ι} {node : N} {id : ι}

omit [DecidableEq ι] in
variable (nextOf) in
theorem successor_of_lookup (hlookup : lookup id = some node) :
    successor nextOf lookup id = nextOf node := by
  simp [successor, hlookup]

theorem revisit_mono {fuel more : ℕ} {answer : Option ι}
    (hle : fuel ≤ more) (hrevisit : revisit nextOf lookup fuel seen node =
      some answer) :
    revisit nextOf lookup more seen node = some answer := by
  induction fuel generalizing more seen node with
  | zero => simp [revisit] at hrevisit
  | succ fuel ih =>
      obtain ⟨more, rfl⟩ := Nat.exists_eq_add_one_of_ne_zero
        (show more ≠ 0 by omega)
      rw [revisit] at hrevisit ⊢
      cases hnext : nextOf node with
      | none => simpa [hnext] using hrevisit
      | some next =>
          simp only [hnext] at hrevisit ⊢
          by_cases hseen : next ∈ seen
          · simpa [hseen] using hrevisit
          · simp only [hseen, if_false] at hrevisit ⊢
            cases hfound : lookup next with
            | none => simpa [hfound] using hrevisit
            | some found =>
                simp only [hfound] at hrevisit ⊢
                exact ih (by omega) hrevisit

variable (nextOf node) in
/-- A walk over finitely many nodes has its answer within one turn for each of
them and one more. -/
theorem revisit_isSome {support : Finset ι}
    (hsupport : ∀ id node, lookup id = some node → id ∈ support)
    {fuel : ℕ} (hfuel : (support \ seen.toFinset).card < fuel) :
    (revisit nextOf lookup fuel seen node).isSome := by
  induction fuel generalizing seen node with
  | zero => omega
  | succ fuel ih =>
      rw [revisit]
      cases nextOf node with
      | none => rfl
      | some next =>
          by_cases hseen : next ∈ seen
          · simp [hseen]
          · simp only [hseen, if_false]
            cases hfound : lookup next with
            | none => rfl
            | some found =>
                apply ih
                have hmem : next ∈ support \ seen.toFinset := by
                  simp [hseen, hsupport next found hfound]
                have hrest : support \ (next :: seen).toFinset =
                    (support \ seen.toFinset).erase next := by
                  ext item
                  simp only [List.toFinset_cons, Finset.mem_sdiff,
                    Finset.mem_insert, Finset.mem_erase]
                  tauto
                have hcard := Finset.card_erase_lt_of_mem hmem
                rw [hrest]
                omega

theorem chain_of_revisit {fuel : ℕ} (hlookup : lookup id = some node)
    (hrevisit : revisit nextOf lookup fuel seen node = some none) :
    ∃ rest, Chain (successor nextOf lookup) id rest := by
  induction fuel generalizing seen node id with
  | zero => simp [revisit] at hrevisit
  | succ fuel ih =>
      rw [revisit] at hrevisit
      have hsuccessor := successor_of_lookup nextOf hlookup
      cases hnext : nextOf node with
      | none => exact ⟨[], .last (hsuccessor.trans hnext)⟩
      | some next =>
          simp only [hnext] at hrevisit
          by_cases hseen : next ∈ seen
          · simp [hseen] at hrevisit
          · simp only [hseen, if_false] at hrevisit
            cases hfound : lookup next with
            | none =>
                have hlast : successor nextOf lookup next = none := by
                  simp [successor, hfound]
                exact ⟨[next], .link (hsuccessor.trans hnext) (.last hlast)⟩
            | some found =>
                simp only [hfound] at hrevisit
                obtain ⟨rest, hrest⟩ := ih hfound hrevisit
                exact ⟨next :: rest, .link (hsuccessor.trans hnext) hrest⟩

theorem meetsCycle_of_revisit {fuel : ℕ} {entry : ι}
    (hlookup : lookup id = some node)
    (hseen : ∀ earlier ∈ seen,
      Relation.ReflTransGen (Link (successor nextOf lookup)) earlier id)
    (hrevisit : revisit nextOf lookup fuel seen node = some (some entry)) :
    MeetsCycle (successor nextOf lookup) id := by
  induction fuel generalizing seen node id with
  | zero => simp [revisit] at hrevisit
  | succ fuel ih =>
      rw [revisit] at hrevisit
      have hsuccessor := successor_of_lookup nextOf hlookup
      cases hnext : nextOf node with
      | none => simp [hnext] at hrevisit
      | some next =>
          have hlink : Link (successor nextOf lookup) id next :=
            hsuccessor.trans hnext
          simp only [hnext] at hrevisit
          by_cases hmem : next ∈ seen
          · have hcycle := Relation.TransGen.tail' (hseen next hmem) hlink
            exact ⟨next, .single hlink, hcycle⟩
          · simp only [hmem, if_false] at hrevisit
            cases hfound : lookup next with
            | none => simp [hfound] at hrevisit
            | some found =>
                simp only [hfound] at hrevisit
                have hextended : ∀ earlier ∈ next :: seen,
                    Relation.ReflTransGen (Link (successor nextOf lookup))
                      earlier next := by
                  intro earlier hearlier
                  rcases List.mem_cons.mp hearlier with heq | hbefore
                  · exact heq ▸ .refl
                  · exact (hseen earlier hbefore).tail hlink
                obtain ⟨entry, hreach, hcycle⟩ := ih hfound hextended hrevisit
                exact ⟨entry, .head hlink hreach, hcycle⟩

variable (nextOf) in
/-- The walk from a node finds a cycle exactly when the node meets one, and
otherwise the node's chain ends. -/
theorem revisit_spec {fuel : ℕ} (hlookup : lookup id = some node)
    (hanswer : (revisit nextOf lookup fuel [id] node).isSome) :
    (revisit nextOf lookup fuel [id] node = some none ∧
        ∃ rest, Chain (successor nextOf lookup) id rest) ∨
      ((∃ entry, revisit nextOf lookup fuel [id] node = some (some entry)) ∧
        MeetsCycle (successor nextOf lookup) id) := by
  obtain ⟨answer, hrevisit⟩ := Option.isSome_iff_exists.mp hanswer
  cases answer with
  | none => exact Or.inl ⟨hrevisit, chain_of_revisit hlookup hrevisit⟩
  | some entry =>
      have hseen : ∀ earlier ∈ [id], Relation.ReflTransGen
          (Link (successor nextOf lookup)) earlier id := by
        intro earlier hearlier
        rw [List.mem_singleton.mp hearlier]
      exact Or.inr ⟨⟨entry, hrevisit⟩,
        meetsCycle_of_revisit hlookup hseen hrevisit⟩

end Walk

end SuccessorChain
