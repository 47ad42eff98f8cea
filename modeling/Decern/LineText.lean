import Mathlib.Tactic

/-!
# Separator-terminated lines

A file of lines over an arbitrary alphabet is its complete lines, each ended
by a separator, followed by an unterminated tail.  `cut` recovers the two, and
the lemmas below say how it behaves under appending and under a cut at an
arbitrary position.
-/

namespace LineText

variable {α : Type*} (sep : α)

/-- Lines written one after the other, each with its separator. -/
def joined (lines : List (List α)) : List α :=
  lines.flatMap fun line => line ++ [sep]

@[simp] theorem joined_nil : joined sep ([] : List (List α)) = [] := rfl

@[simp] theorem joined_cons (line : List α) (lines : List (List α)) :
    joined sep (line :: lines) = line ++ sep :: joined sep lines := by
  simp [joined]

@[simp] theorem joined_append (left right : List (List α)) :
    joined sep (left ++ right) = joined sep left ++ joined sep right := by
  simp [joined]

theorem joined_isPrefix {left right : List (List α)} (h : left <+: right) :
    joined sep left <+: joined sep right := by
  obtain ⟨rest, rfl⟩ := h
  exact ⟨joined sep rest, by simp⟩

variable [DecidableEq α]

/-- The complete lines of a text, without their separators, and what follows
the last separator. -/
def cut : List α → List (List α) × List α
  | [] => ([], [])
  | symbol :: rest =>
      if symbol = sep then
        ([] :: (cut rest).1, (cut rest).2)
      else
        match (cut rest).1 with
        | [] => ([], symbol :: (cut rest).2)
        | line :: others => ((symbol :: line) :: others, (cut rest).2)

/-- The longest prefix that ends with a separator. -/
def terminatedPrefix (text : List α) : List α :=
  joined sep (cut sep text).1

@[simp] theorem cut_nil : cut sep ([] : List α) = ([], []) := rfl

@[simp] theorem cut_sep_cons (rest : List α) :
    cut sep (sep :: rest) = ([] :: (cut sep rest).1, (cut sep rest).2) := by
  simp [cut]

/-- A text is its complete lines followed by its tail. -/
theorem joined_cut_append_tail (text : List α) :
    joined sep (cut sep text).1 ++ (cut sep text).2 = text := by
  induction text with
  | nil => rfl
  | cons symbol rest ih =>
      by_cases hsep : symbol = sep
      · subst symbol
        simpa using ih
      · simp only [cut, hsep, if_false]
        cases hlines : (cut sep rest).1 with
        | nil =>
            rw [hlines] at ih
            simpa using ih
        | cons line others =>
            rw [hlines] at ih
            simpa using ih

theorem terminatedPrefix_append_tail (text : List α) :
    terminatedPrefix sep text ++ (cut sep text).2 = text :=
  joined_cut_append_tail sep text

theorem terminatedPrefix_isPrefix (text : List α) :
    terminatedPrefix sep text <+: text :=
  ⟨_, terminatedPrefix_append_tail sep text⟩

theorem sep_notMem_of_mem_cut {text line : List α}
    (hline : line ∈ (cut sep text).1) : sep ∉ line := by
  induction text generalizing line with
  | nil => simp at hline
  | cons symbol rest ih =>
      by_cases hsep : symbol = sep
      · subst symbol
        simp only [cut_sep_cons, List.mem_cons] at hline
        rcases hline with rfl | hrest
        · simp
        · exact ih hrest
      · simp only [cut, hsep, if_false] at hline
        cases hlines : (cut sep rest).1 with
        | nil => simp [hlines] at hline
        | cons first others =>
            simp only [hlines, List.mem_cons] at hline
            rcases hline with rfl | hrest
            · have hfirst : sep ∉ first := ih (by simp [hlines])
              simp [hfirst, Ne.symm hsep]
            · exact ih (by simp [hlines, hrest])

theorem sep_notMem_tail (text : List α) : sep ∉ (cut sep text).2 := by
  induction text with
  | nil => simp
  | cons symbol rest ih =>
      by_cases hsep : symbol = sep
      · subst symbol
        simpa using ih
      · simp only [cut, hsep, if_false]
        cases (cut sep rest).1 with
        | nil => simp [ih, Ne.symm hsep]
        | cons first others => exact ih

/-- A text with no separator is all tail. -/
theorem cut_eq_of_notMem {text : List α} (htext : sep ∉ text) :
    cut sep text = ([], text) := by
  induction text with
  | nil => rfl
  | cons symbol rest ih =>
      simp only [List.mem_cons, not_or] at htext
      simp [cut, ih htext.2, Ne.symm htext.1]

theorem cut_line_append {line : List α} (hline : sep ∉ line)
    (text : List α) :
    cut sep (line ++ sep :: text) =
      (line :: (cut sep text).1, (cut sep text).2) := by
  induction line with
  | nil => simp
  | cons symbol rest ih =>
      simp only [List.mem_cons, not_or] at hline
      rw [List.cons_append]
      simp [cut, ih hline.2, Ne.symm hline.1]

/-- Complete lines written before a text come first among its lines. -/
theorem cut_joined_append {lines : List (List α)}
    (hlines : ∀ line ∈ lines, sep ∉ line) (text : List α) :
    cut sep (joined sep lines ++ text) =
      (lines ++ (cut sep text).1, (cut sep text).2) := by
  induction lines with
  | nil => simp
  | cons line rest ih =>
      have hline : sep ∉ line := hlines line (by simp)
      have hrest := ih fun other hother => hlines other (by simp [hother])
      rw [joined_cons, List.append_assoc, List.cons_append,
        cut_line_append sep hline, hrest]
      simp

theorem cut_joined {lines : List (List α)}
    (hlines : ∀ line ∈ lines, sep ∉ line) :
    cut sep (joined sep lines) = (lines, []) := by
  simpa using cut_joined_append sep hlines []

@[simp] theorem cut_terminatedPrefix (text : List α) :
    cut sep (terminatedPrefix sep text) = ((cut sep text).1, []) :=
  cut_joined sep fun _ hline => sep_notMem_of_mem_cut sep hline

@[simp] theorem terminatedPrefix_idem (text : List α) :
    terminatedPrefix sep (terminatedPrefix sep text) =
      terminatedPrefix sep text := by
  simp [terminatedPrefix, cut_joined sep fun _ hline =>
    sep_notMem_of_mem_cut sep hline]

theorem terminatedPrefix_eq_self_iff (text : List α) :
    terminatedPrefix sep text = text ↔ (cut sep text).2 = [] := by
  constructor
  · intro heq
    have hsplit := terminatedPrefix_append_tail sep text
    rw [heq] at hsplit
    simpa using hsplit
  · intro htail
    have hsplit := terminatedPrefix_append_tail sep text
    simpa [htail] using hsplit

/-- The complete lines of a longer text start with those of a shorter one. -/
theorem cut_fst_mono {short long : List α}
    (hstart : short <+: long) : (cut sep short).1 <+: (cut sep long).1 := by
  obtain ⟨more, rfl⟩ := hstart
  have hsplit := joined_cut_append_tail sep short
  have hlines : ∀ line ∈ (cut sep short).1, sep ∉ line :=
    fun _ hline => sep_notMem_of_mem_cut sep hline
  have hcut := cut_joined_append sep hlines ((cut sep short).2 ++ more)
  rw [← List.append_assoc, hsplit] at hcut
  rw [hcut]
  exact List.prefix_append _ _

theorem terminatedPrefix_mono {short long : List α}
    (hstart : short <+: long) :
    terminatedPrefix sep short <+: terminatedPrefix sep long :=
  joined_isPrefix sep (cut_fst_mono sep hstart)

/-! ## A write stopped at an arbitrary position -/

/-- The first symbols of written lines are some complete lines and a proper
beginning of the next one. -/
theorem cut_take_joined {lines : List (List α)}
    (hlines : ∀ line ∈ lines, sep ∉ line) (count : ℕ) :
    ∃ complete,
      complete <+: lines ∧
      (cut sep ((joined sep lines).take count)).1 = complete ∧
      ((cut sep ((joined sep lines).take count)).2 = [] ∨
        ∃ line rest, lines = complete ++ line :: rest ∧
          (cut sep ((joined sep lines).take count)).2 <+: line) := by
  induction lines generalizing count with
  | nil => exact ⟨[], List.prefix_refl _, by simp, Or.inl (by simp)⟩
  | cons line rest ih =>
      have hline : sep ∉ line := hlines line (by simp)
      by_cases hcount : count ≤ line.length
      · have htake : (joined sep (line :: rest)).take count =
            line.take count := by
          rw [joined_cons, List.take_append_of_le_length hcount]
        have hcut : cut sep (line.take count) = ([], line.take count) :=
          cut_eq_of_notMem sep fun hmem =>
            hline (List.mem_of_mem_take hmem)
        refine ⟨[], List.nil_prefix, by rw [htake, hcut], ?_⟩
        rw [htake, hcut]
        exact Or.inr ⟨line, rest, rfl, List.take_prefix _ _⟩
      · obtain ⟨extra, hextra⟩ : ∃ extra, count = line.length + 1 + extra :=
          ⟨count - (line.length + 1), by omega⟩
        have htake : (joined sep (line :: rest)).take count =
            line ++ sep :: (joined sep rest).take extra := by
          rw [joined_cons, hextra, Nat.add_assoc, List.take_length_add_append,
            Nat.add_comm 1 extra, List.take_succ_cons]
        obtain ⟨complete, hstart, hfst, htail⟩ :=
          ih (fun other hother => hlines other (by simp [hother])) extra
        rw [htake, cut_line_append sep hline]
        refine ⟨line :: complete, ?_, by rw [hfst], ?_⟩
        · exact List.cons_prefix_cons.mpr ⟨rfl, hstart⟩
        · rcases htail with hnil | ⟨next, others, hsplit, hpart⟩
          · exact Or.inl hnil
          · exact Or.inr ⟨next, others, by rw [hsplit]; rfl, hpart⟩

/-! ## The last separator -/

/-- A text cut after its last separator. -/
theorem cut_append_cons {text tail : List α} (htail : sep ∉ tail) :
    cut sep (text ++ sep :: tail) =
      ((cut sep text).1 ++ [(cut sep text).2], tail) := by
  have hlines : ∀ line ∈ (cut sep text).1 ++ [(cut sep text).2],
      sep ∉ line := by
    intro line hline
    rcases List.mem_append.mp hline with hcomplete | hlast
    · exact sep_notMem_of_mem_cut sep hcomplete
    · rw [List.mem_singleton] at hlast
      rw [hlast]
      exact sep_notMem_tail sep text
  have hjoined : joined sep ((cut sep text).1 ++ [(cut sep text).2]) ++ tail =
      text ++ sep :: tail := by
    calc
      joined sep ((cut sep text).1 ++ [(cut sep text).2]) ++ tail =
          (joined sep (cut sep text).1 ++ (cut sep text).2) ++
            sep :: tail := by simp
      _ = text ++ sep :: tail := by rw [joined_cut_append_tail]
  rw [← hjoined, cut_joined_append sep hlines, cut_eq_of_notMem sep htail,
    List.append_nil]

theorem terminatedPrefix_append_cons {text tail : List α}
    (htail : sep ∉ tail) :
    terminatedPrefix sep (text ++ sep :: tail) = text ++ [sep] := by
  have hsplit := terminatedPrefix_append_tail sep (text ++ sep :: tail)
  rw [cut_append_cons sep htail] at hsplit
  have hbefore : terminatedPrefix sep (text ++ sep :: tail) ++ tail =
      (text ++ [sep]) ++ tail := by
    rw [hsplit]
    simp
  exact List.append_cancel_right hbefore

theorem terminatedPrefix_eq_nil {text : List α} (htext : sep ∉ text) :
    terminatedPrefix sep text = [] := by
  rw [terminatedPrefix, cut_eq_of_notMem sep htext]
  rfl

/-- The position of the last symbol with a property. -/
def rposition (p : α → Bool) : List α → Option ℕ
  | [] => none
  | symbol :: rest =>
      match rposition p rest with
      | some position => some (position + 1)
      | none => if p symbol then some 0 else none

theorem notMem_of_rposition_eq_none {text : List α}
    (htext : rposition (· == sep) text = none) : sep ∉ text := by
  induction text with
  | nil => simp
  | cons symbol rest ih =>
      rw [rposition] at htext
      cases hrest : rposition (· == sep) rest with
      | some position => simp [hrest] at htext
      | none =>
          have hne : sep ≠ symbol := by
            rintro rfl
            simp [hrest] at htext
          exact List.not_mem_cons_of_ne_of_not_mem hne (ih hrest)

theorem split_of_rposition_eq_some {text : List α} {position : ℕ}
    (htext : rposition (· == sep) text = some position) :
    ∃ before after, text = before ++ sep :: after ∧
      before.length = position ∧ sep ∉ after := by
  induction text generalizing position with
  | nil => cases htext
  | cons symbol rest ih =>
      rw [rposition] at htext
      cases hrest : rposition (· == sep) rest with
      | some inner =>
          obtain ⟨before, after, hsplit, hlength, hafter⟩ := ih hrest
          rw [hrest] at htext
          cases htext
          exact ⟨symbol :: before, after, by rw [hsplit]; rfl,
            by rw [List.length_cons, hlength], hafter⟩
      | none =>
          rw [hrest] at htext
          by_cases hsymbol : symbol = sep
          · subst hsymbol
            simp only [beq_self_eq_true, if_true, Option.some.injEq] at htext
            exact ⟨[], rest, rfl, htext,
              notMem_of_rposition_eq_none _ hrest⟩
          · simp [hsymbol] at htext

end LineText
