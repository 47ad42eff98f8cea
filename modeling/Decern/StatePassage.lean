import Mathlib.Tactic

/-!
# Passages

What a state goes through on its way to another, each moment related to the
one before it.  Along an order, what is found at one moment is below what is
found at every later one.
-/

variable {α β : Type*} {R : α → α → Prop} {start middle last : α}
  {moments more : List α}

/-- From `start` through the moments to `last`, which is the last of them. -/
inductive Passage (R : α → α → Prop) : α → List α → α → Prop
  | done (state : α) : Passage R state [] state
  | next {state next moments last} (hstep : R state next)
      (hrest : Passage R next moments last) :
      Passage R state (next :: moments) last

namespace Passage

theorem single (hstep : R start last) : Passage R start [last] last :=
  .next hstep (.done last)

theorem append (hfirst : Passage R start moments middle)
    (hsecond : Passage R middle more last) :
    Passage R start (moments ++ more) last := by
  induction hfirst with
  | done => exact hsecond
  | next hstep _ ih => exact .next hstep (ih hsecond)

theorem map {S : β → β → Prop} {f : α → β}
    (hf : ∀ x y, R x y → S (f x) (f y))
    (hpassage : Passage R start moments last) :
    Passage S (f start) (moments.map f) (f last) := by
  induction hpassage with
  | done state => exact .done (f state)
  | next hstep _ ih => exact .next (hf _ _ hstep) ih

theorem found_last (hpassage : Passage R start moments last) :
    (start :: moments)[moments.length]? = some last := by
  induction hpassage with
  | done => rfl
  | next _ _ ih => exact ih

section Ordered

variable [IsPreorder α R]

theorem earlier (hstep : R start middle)
    (hpassage : Passage R middle moments last) (hne : moments ≠ []) :
    Passage R start moments last := by
  cases hpassage with
  | done => exact absurd rfl hne
  | next hnext hrest => exact .next (trans_of R hstep hnext) hrest

/-- What is found first is below all that is found. -/
theorem from_start (hpassage : Passage R start moments last) {later : ℕ}
    {found : α} (hfound : (start :: moments)[later]? = some found) :
    R start found := by
  induction hpassage generalizing later with
  | done state =>
      cases later with
      | zero =>
          cases hfound
          exact refl_of R _
      | succ later => simp at hfound
  | @next state next moments last hstep hrest ih =>
      cases later with
      | zero =>
          cases hfound
          exact refl_of R _
      | succ later => exact trans_of R hstep (ih hfound)

/-- What is found at one moment is below what is found later. -/
theorem ordered (hpassage : Passage R start moments last) {time later : ℕ}
    {found next : α} (hfound : (start :: moments)[time]? = some found)
    (hnext : (start :: moments)[later]? = some next) (hle : time ≤ later) :
    R found next := by
  induction hpassage generalizing time later with
  | done state =>
      cases time with
      | zero =>
          cases hfound
          exact (Passage.done _).from_start hnext
      | succ time => simp at hfound
  | @next state middle moments last hstep hrest ih =>
      cases time with
      | zero =>
          cases hfound
          exact (Passage.next hstep hrest).from_start hnext
      | succ time =>
          cases later with
          | zero => omega
          | succ later => exact ih hfound hnext (by omega)

end Ordered

end Passage
