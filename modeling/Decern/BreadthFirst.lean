import Mathlib.Data.Finset.Card
import Mathlib.Tactic

/-!
# Breadth-first expansion

A queue of nodes whose children are appended, each once, until the queue is
empty.  What it answers is closed under children, without repetition, and
every node of it comes after a node it is a child of.
-/

namespace BreadthFirst

variable {α : Type*} [DecidableEq α]

/-- The nodes seen so far, those still to be expanded, and the answer. -/
structure Search (α : Type*) where
  seen : List α
  queue : List α
  out : List α

/-- A child is new, or passed over. -/
def visit (search : Search α) (child : α) : Search α :=
  if child ∈ search.seen then search
  else ⟨child :: search.seen, search.queue ++ [child], search.out ++ [child]⟩

/-- The children of one node after another. -/
def expand (children : α → List α) : ℕ → Search α → List α
  | 0, search => search.out
  | fuel + 1, search =>
      match search.queue with
      | [] => search.out
      | node :: queue =>
          expand children fuel
            ((children node).foldl visit { search with queue })

/-- All and only what is below a node, each node after one it is a child
of. -/
structure Explored (children : α → List α) (start : α) (out : List α) :
    Prop where
  nodup : (start :: out).Nodup
  after : ∀ before node rest, out = before ++ node :: rest →
    ∃ parent, (parent = start ∨ parent ∈ before) ∧ node ∈ children parent
  closed : ∀ parent ∈ start :: out, ∀ child ∈ children parent,
    child ∈ start :: out

/-- A search whose nodes up to here are expanded. -/
structure Expanding (children : α → List α) (start : α) (done : List α)
    (search : Search α) : Prop where
  order : start :: search.out = done ++ search.queue
  seen : ∀ node, node ∈ search.seen ↔ node ∈ start :: search.out
  nodup : (start :: search.out).Nodup
  after : ∀ before node rest, search.out = before ++ node :: rest →
    ∃ parent, (parent = start ∨ parent ∈ before) ∧ node ∈ children parent
  closed : ∀ parent ∈ done, ∀ child ∈ children parent,
    child ∈ start :: search.out

variable {children : α → List α} {start : α} {done : List α}
  {search : Search α}

/-- What visiting a list of children adds. -/
theorem foldl_visit (nodes : List α) (search : Search α) :
    ∃ fresh : List α, nodes.foldl visit search =
        ⟨fresh.reverse ++ search.seen, search.queue ++ fresh,
          search.out ++ fresh⟩ ∧
      fresh.Nodup ∧ (∀ node ∈ fresh, node ∈ nodes ∧ node ∉ search.seen) ∧
      ∀ node ∈ nodes, node ∈ search.seen ∨ node ∈ fresh := by
  induction nodes generalizing search with
  | nil => exact ⟨[], by simp⟩
  | cons first rest ih =>
      rw [List.foldl_cons]
      by_cases hseen : first ∈ search.seen
      · have hvisit : visit search first = search := if_pos hseen
        obtain ⟨fresh, hfold, hnodup, hfresh, hall⟩ := ih search
        rw [hvisit]
        refine ⟨fresh, hfold, hnodup, ?_, ?_⟩
        · intro node hnode
          exact ⟨List.mem_cons_of_mem _ (hfresh node hnode).1,
            (hfresh node hnode).2⟩
        · rw [List.forall_mem_cons]
          exact ⟨Or.inl hseen, hall⟩
      · have hvisit : visit search first = ⟨first :: search.seen,
            search.queue ++ [first], search.out ++ [first]⟩ := if_neg hseen
        obtain ⟨fresh, hfold, hnodup, hfresh, hall⟩ := ih (visit search first)
        rw [hvisit] at hfold hfresh hall
        refine ⟨first :: fresh, ?_, ?_, ?_, ?_⟩
        · rw [hvisit, hfold]
          simp
        · rw [List.nodup_cons]
          exact ⟨fun hmem => (hfresh first hmem).2 (by simp), hnodup⟩
        · rw [List.forall_mem_cons]
          refine ⟨⟨by simp, hseen⟩, fun node hnode => ?_⟩
          have hnew := hfresh node hnode
          exact ⟨List.mem_cons_of_mem _ hnew.1,
            fun hmem => hnew.2 (List.mem_cons_of_mem _ hmem)⟩
        · rw [List.forall_mem_cons]
          refine ⟨Or.inr (by simp), fun node hnode => ?_⟩
          rcases hall node hnode with hbefore | hfresh
          · rcases List.mem_cons.mp hbefore with heq | hmem
            · exact Or.inr (by simp [heq])
            · exact Or.inl hmem
          · exact Or.inr (List.mem_cons_of_mem _ hfresh)

/-- One node expanded. -/
theorem Expanding.step {node : α} {queue : List α}
    (hexpanding : Expanding children start done search)
    (hqueue : search.queue = node :: queue) :
    Expanding children start (done ++ [node])
      ((children node).foldl visit { search with queue }) := by
  obtain ⟨fresh, hfold, hnodup, hfresh, hall⟩ :=
    foldl_visit (children node) { search with queue }
  have horder := hexpanding.order
  rw [hqueue] at horder
  have hnew : ∀ child ∈ fresh, child ∉ start :: search.out :=
    fun child hchild hmem =>
      (hfresh child hchild).2 ((hexpanding.seen child).mpr hmem)
  have hsplit : start :: (search.out ++ fresh) =
      (start :: search.out) ++ fresh := rfl
  rw [hfold]
  constructor
  · simp [hsplit, horder]
  · intro other
    simp only [hsplit, List.mem_append, List.mem_reverse]
    rw [hexpanding.seen other]
    exact or_comm
  · rw [hsplit, List.nodup_append']
    exact ⟨hexpanding.nodup, hnodup, fun child hold hchild =>
      hnew child hchild hold⟩
  · intro before other rest hout
    rcases List.append_eq_append_iff.mp hout with
      ⟨added, hbefore, hrest⟩ | ⟨added, hout', hrest⟩
    · have hchild : other ∈ fresh := by simp [hrest]
      refine ⟨node, ?_, (hfresh other hchild).1⟩
      have hmem : node ∈ start :: search.out := by simp [horder]
      rcases List.mem_cons.mp hmem with heq | hbefore'
      · exact Or.inl heq
      · exact Or.inr (by simp [hbefore, hbefore'])
    · cases added with
      | nil =>
          rw [List.nil_append] at hrest
          have hchild : other ∈ fresh := by simp [← hrest]
          refine ⟨node, ?_, (hfresh other hchild).1⟩
          have hmem : node ∈ start :: search.out := by simp [horder]
          rcases List.mem_cons.mp hmem with heq | hbefore'
          · exact Or.inl heq
          · refine Or.inr ?_
            rw [List.append_nil] at hout'
            rwa [← hout']
      | cons head tail =>
          rw [List.cons_append, List.cons.injEq] at hrest
          exact hexpanding.after before other tail (by
            rw [hout', hrest.1])
  · intro parent hparent child hchild
    rw [hsplit, List.mem_append]
    rcases List.mem_append.mp hparent with hdone | hnode
    · exact Or.inl (hexpanding.closed parent hdone child hchild)
    · rw [List.mem_singleton.mp hnode] at hchild
      rcases hall child hchild with hseen | hadded
      · exact Or.inl ((hexpanding.seen child).mp hseen)
      · exact Or.inr hadded

omit [DecidableEq α] in
theorem Expanding.finished (hexpanding : Expanding children start done search)
    (hqueue : search.queue = []) : Explored children start search.out := by
  have horder := hexpanding.order
  rw [hqueue, List.append_nil] at horder
  exact ⟨hexpanding.nodup, hexpanding.after, horder ▸ hexpanding.closed⟩

omit [DecidableEq α] in
theorem Expanding.subset {support : Finset α} (hstart : start ∈ support)
    (hsupport : ∀ parent, ∀ child ∈ children parent, child ∈ support)
    (hexpanding : Expanding children start done search) :
    ∀ node ∈ start :: search.out, node ∈ support := by
  intro node hnode
  rcases List.mem_cons.mp hnode with heq | hout
  · exact heq ▸ hstart
  · obtain ⟨before, rest, hsplit⟩ := List.append_of_mem hout
    obtain ⟨parent, _, hchild⟩ := hexpanding.after before node rest hsplit
    exact hsupport parent node hchild

/-- A search with a turn for every node it can meet ends explored. -/
theorem Expanding.explored {fuel : ℕ} {support : Finset α}
    (hstart : start ∈ support)
    (hsupport : ∀ parent, ∀ child ∈ children parent, child ∈ support)
    (hexpanding : Expanding children start done search)
    (hfuel : support.card ≤ fuel + done.length) :
    Explored children start (expand children fuel search) := by
  induction fuel generalizing done search with
  | zero =>
      have hcard : (start :: search.out).length ≤ support.card := by
        rw [← List.toFinset_card_of_nodup hexpanding.nodup]
        exact Finset.card_le_card fun node hnode =>
          hexpanding.subset hstart hsupport node (List.mem_toFinset.mp hnode)
      have horder := congrArg List.length hexpanding.order
      rw [List.length_append] at horder
      have hqueue : search.queue = [] := by
        apply List.length_eq_zero_iff.mp
        omega
      exact hexpanding.finished hqueue
  | succ fuel ih =>
      rw [expand]
      cases hqueue : search.queue with
      | nil => exact hexpanding.finished hqueue
      | cons node queue =>
          have hstep := hexpanding.step hqueue
          apply ih hstep
          rw [List.length_append, List.length_singleton]
          omega

omit [DecidableEq α] in
/-- The search from one node. -/
theorem expanding_start (start : α) :
    Expanding children start [] ⟨[start], [start], []⟩ := by
  constructor <;> simp

end BreadthFirst
