import Mathlib.Tactic

/-!
# Parts over a shared state

Several parts run at once.  A step is one part's: it changes what all share
and that part's own state.  What a part relies on is a relation between shared
states that every other part's step guarantees.  A part's invariant that its
own steps keep and that survives what it relies on holds in every state the
parts reach together.
-/

namespace RelyGuarantee

variable {H S N : Type*} [DecidableEq H]

/-- What all parts share, and the state of each. -/
structure State (H S N : Type*) where
  shared : S
  parts : H → N

/-- One part takes a step. -/
inductive Step (acts : H → S → N → S → N → Prop) :
    State H S N → State H S N → Prop where
  | part {state : State H S N} (host : H) {shared : S} {node : N}
      (hacts : acts host state.shared (state.parts host) shared node) :
      Step acts state ⟨shared, Function.update state.parts host node⟩

/-- The states the parts come to. -/
abbrev Reaches (acts : H → S → N → S → N → Prop) :
    State H S N → State H S N → Prop :=
  Relation.ReflTransGen (Step acts)

variable {acts : H → S → N → S → N → Prop}

theorem step_keeps {good : H → S → N → Prop} (rely : H → S → S → Prop)
    (hown : ∀ host shared node shared' node', good host shared node →
      acts host shared node shared' node' → good host shared' node')
    (hguarantee : ∀ host other shared node shared' node',
      other ≠ host → good other shared node →
        acts other shared node shared' node' → rely host shared shared')
    (hstable : ∀ host shared node shared', good host shared node →
      rely host shared shared' → good host shared' node)
    {state next : State H S N} (hstep : Step acts state next)
    (hgood : ∀ host, good host state.shared (state.parts host)) (host : H) :
    good host next.shared (next.parts host) := by
  cases hstep with
  | part actor hacts =>
      by_cases hsame : host = actor
      · subst hsame
        simp only [Function.update_self]
        exact hown _ _ _ _ _ (hgood host) hacts
      · simp only [Function.update_of_ne hsame]
        apply hstable host _ _ _ (hgood host)
        exact hguarantee host actor _ _ _ _ (Ne.symm hsame) (hgood actor)
          hacts

/-- The rule: kept by the part's own steps and by what it relies on, held
from the start, an invariant holds of every part in every reachable state. -/
theorem reaches_keeps {good : H → S → N → Prop} (rely : H → S → S → Prop)
    (hown : ∀ host shared node shared' node', good host shared node →
      acts host shared node shared' node' → good host shared' node')
    (hguarantee : ∀ host other shared node shared' node',
      other ≠ host → good other shared node →
        acts other shared node shared' node' → rely host shared shared')
    (hstable : ∀ host shared node shared', good host shared node →
      rely host shared shared' → good host shared' node)
    {start state : State H S N} (hreaches : Reaches acts start state)
    (hstart : ∀ host, good host start.shared (start.parts host)) (host : H) :
    good host state.shared (state.parts host) := by
  induction hreaches generalizing host with
  | refl => exact hstart host
  | tail _ hstep ih => exact step_keeps rely hown hguarantee hstable hstep ih host

end RelyGuarantee

/-! ## Progress by a rank -/

namespace RankedProgress

variable {σ : Type*} {step : σ → σ → Prop} {done : σ → Prop}

/-- Where a step that lowers the rank is open as long as the work is not
done, the work is done within the rank. -/
theorem reaches_done (inv : σ → Prop) (rank : σ → ℕ)
    (hopen : ∀ state, inv state → ¬ done state →
      ∃ next, step state next ∧ inv next ∧ rank next < rank state)
    (state : σ) (hinv : inv state) :
    ∃ last, Relation.ReflTransGen step state last ∧ done last := by
  induction hrank : rank state using Nat.strong_induction_on
    generalizing state with
  | _ bound ih =>
      by_cases hdone : done state
      · exact ⟨state, .refl, hdone⟩
      · rcases hopen state hinv hdone with ⟨next, hstep, hnext, hlower⟩
        rcases ih (rank next) (hrank ▸ hlower) next hnext rfl with
          ⟨last, hreaches, hlast⟩
        exact ⟨last, .head hstep hreaches, hlast⟩

end RankedProgress
