import Mathlib.Tactic

/-!
# Runs of a state machine

A machine takes one action after the other.  What every admitted step keeps,
every run of admitted steps keeps.
-/

namespace StateRun

variable {σ α : Type*} (step : σ → α → σ)

/-- The state after some actions. -/
def run (start : σ) (actions : List α) : σ :=
  actions.foldl step start

@[simp] theorem run_nil (start : σ) : run step start [] = start := rfl

@[simp] theorem run_cons (start : σ) (action : α) (actions : List α) :
    run step start (action :: actions) =
      run step (step start action) actions := rfl

theorem run_append (start : σ) (left right : List α) :
    run step start (left ++ right) = run step (run step start left) right := by
  simp [run]

/-- An invariant of the admitted steps holds after every run of them. -/
theorem run_preserves {inv : σ → Prop} {admitted : α → Prop}
    (hstep : ∀ state action, inv state → admitted action →
      inv (step state action))
    {start : σ} (hstart : inv start) {actions : List α}
    (hactions : ∀ action ∈ actions, admitted action) :
    inv (run step start actions) := by
  induction actions generalizing start with
  | nil => exact hstart
  | cons action rest ih =>
      apply ih
      · exact hstep start action hstart (hactions action (by simp))
      · intro other hother
        exact hactions other (by simp [hother])

/-- Every action is admitted in the state it is taken in. -/
def Admitted (admitted : σ → α → Prop) : σ → List α → Prop
  | _, [] => True
  | state, action :: rest =>
      admitted state action ∧ Admitted admitted (step state action) rest

theorem admitted_append {admitted : σ → α → Prop} {start : σ}
    {left right : List α} :
    Admitted step admitted start (left ++ right) ↔
      Admitted step admitted start left ∧
        Admitted step admitted (run step start left) right := by
  induction left generalizing start with
  | nil => simp [Admitted]
  | cons action rest ih =>
      simp only [List.cons_append, Admitted, run_cons, ih, and_assoc]

theorem run_preserves_admitted {inv : σ → Prop} {admitted : σ → α → Prop}
    (hstep : ∀ state action, inv state → admitted state action →
      inv (step state action))
    {start : σ} (hstart : inv start) {actions : List α}
    (hactions : Admitted step admitted start actions) :
    inv (run step start actions) := by
  induction actions generalizing start with
  | nil => exact hstart
  | cons action rest ih =>
      obtain ⟨hadmitted, hrest⟩ := hactions
      exact ih (hstep start action hstart hadmitted) hrest

/-- A machine that answers every admitted action with some actions of its
own stays related along every run. -/
theorem run_simulates {τ β : Type*} {target : τ → β → τ}
    {encode : α → List β} {rel : σ → τ → Prop} {admitted : σ → α → Prop}
    (hstep : ∀ state image action, rel state image → admitted state action →
      rel (step state action) (run target image (encode action)))
    {start : σ} {image : τ} (hstart : rel start image) {actions : List α}
    (hactions : Admitted step admitted start actions) :
    rel (run step start actions)
      (run target image (actions.flatMap encode)) := by
  induction actions generalizing start image with
  | nil => exact hstart
  | cons action rest ih =>
      obtain ⟨hadmitted, hrest⟩ := hactions
      rw [run_cons, List.flatMap_cons, run_append]
      exact ih (hstep start image action hstart hadmitted) hrest

/-- The same, where the answers to an action may depend on the states. -/
theorem run_follows {τ β : Type*} {target : τ → β → τ} {rel : σ → τ → Prop}
    {admitted : σ → α → Prop} {allowed : τ → β → Prop}
    (hstep : ∀ state image action, rel state image → admitted state action →
      ∃ answers, Admitted target allowed image answers ∧
        rel (step state action) (run target image answers))
    {start : σ} {image : τ} (hstart : rel start image) {actions : List α}
    (hactions : Admitted step admitted start actions) :
    ∃ answers, Admitted target allowed image answers ∧
      rel (run step start actions) (run target image answers) := by
  induction actions generalizing start image with
  | nil => exact ⟨[], trivial, hstart⟩
  | cons action rest ih =>
      obtain ⟨hadmitted, hrest⟩ := hactions
      obtain ⟨first, hfirst, hnext⟩ :=
        hstep start image action hstart hadmitted
      obtain ⟨later, hlater, hlast⟩ := ih hnext hrest
      refine ⟨first ++ later, ?_, ?_⟩
      · exact (admitted_append _).mpr ⟨hfirst, hlater⟩
      · rw [run_append]
        exact hlast

end StateRun
