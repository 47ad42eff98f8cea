import Mathlib.Tactic

/-!
# Separated fields

Fields with a separator between them, or after each of them, are read back
where none of them holds the separator.
-/

namespace SeparatedFields

variable {α : Type*} {sep : α} {before before' after after' : List α}

theorem append_sep_inj (hbefore : sep ∉ before) (hbefore' : sep ∉ before')
    (hsame : before ++ sep :: after = before' ++ sep :: after') :
    before = before' ∧ after = after' := by
  induction before generalizing before' with
  | nil =>
      cases before' with
      | nil => exact ⟨rfl, (List.cons.inj hsame).2⟩
      | cons other others =>
          have hhead := (List.cons.inj hsame).1
          exact absurd (by simp [hhead]) hbefore'
  | cons symbol rest ih =>
      cases before' with
      | nil =>
          have hhead := (List.cons.inj hsame).1
          exact absurd (by simp [hhead]) hbefore
      | cons other others =>
          obtain ⟨hhead, htail⟩ := List.cons.inj hsame
          obtain ⟨hrest, hafter⟩ := ih
            (fun hmem => hbefore (List.mem_cons_of_mem _ hmem))
            (fun hmem => hbefore' (List.mem_cons_of_mem _ hmem)) htail
          exact ⟨by rw [hhead, hrest], hafter⟩

theorem append_sep_inj_last (hafter : sep ∉ after) (hafter' : sep ∉ after')
    (hsame : before ++ sep :: after = before' ++ sep :: after') :
    before = before' ∧ after = after' := by
  have hreversed := congrArg List.reverse hsame
  simp only [List.reverse_append, List.reverse_cons, List.append_assoc,
    List.singleton_append] at hreversed
  obtain ⟨hlast, hfirst⟩ := append_sep_inj (by simpa using hafter)
    (by simpa using hafter') hreversed
  exact ⟨List.reverse_inj.mp hfirst, List.reverse_inj.mp hlast⟩

/-- Every row with the separator after it. -/
def terminated (sep : α) (rows : List (List α)) : List α :=
  rows.flatMap fun row => row ++ [sep]

@[simp] theorem terminated_nil : terminated sep ([] : List (List α)) = [] :=
  rfl

theorem terminated_cons (row : List α) (rows : List (List α)) :
    terminated sep (row :: rows) = row ++ sep :: terminated sep rows := by
  simp [terminated]

theorem terminated_append_inj {rows rows' : List (List α)}
    {last last' : List α} (hrows : ∀ row ∈ rows, sep ∉ row)
    (hrows' : ∀ row ∈ rows', sep ∉ row) (hlast : sep ∉ last)
    (hlast' : sep ∉ last')
    (hsame : terminated sep rows ++ last = terminated sep rows' ++ last') :
    rows = rows' ∧ last = last' := by
  induction rows generalizing rows' with
  | nil =>
      cases rows' with
      | nil => exact ⟨rfl, by simpa using hsame⟩
      | cons row' rest' =>
          -- the text on the left holds no separator
          rw [terminated_nil, List.nil_append, terminated_cons] at hsame
          exact absurd (by simp [hsame]) hlast
  | cons row rest ih =>
      cases rows' with
      | nil =>
          rw [terminated_nil, List.nil_append, terminated_cons] at hsame
          exact absurd (by simp [← hsame]) hlast'
      | cons row' rest' =>
          rw [terminated_cons, terminated_cons, List.append_assoc,
            List.append_assoc, List.cons_append, List.cons_append] at hsame
          have hfirst := append_sep_inj (hrows row List.mem_cons_self)
            (hrows' row' List.mem_cons_self) hsame
          have hrest := ih
            (fun other hmem => hrows other (List.mem_cons_of_mem _ hmem))
            (fun other hmem => hrows' other (List.mem_cons_of_mem _ hmem))
            hfirst.2
          exact ⟨by rw [hfirst.1, hrest.1], hrest.2⟩

end SeparatedFields
