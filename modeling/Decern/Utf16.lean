import Mathlib.Tactic

/-!
# UTF-16

A text as its UTF-16 code units, and texts ordered by them.
-/

namespace Utf16

/-- One unit, or a high and a low surrogate. -/
def charUnits (c : Char) : List ℕ :=
  if c.toNat < 0x10000 then [c.toNat]
  else [0xD800 + (c.toNat - 0x10000) / 0x400,
    0xDC00 + (c.toNat - 0x10000) % 0x400]

def units (text : String) : List ℕ :=
  text.toList.flatMap charUnits

theorem toNat_range (c : Char) :
    c.toNat < 0xD800 ∨ 0xDFFF < c.toNat ∧ c.toNat < 0x110000 :=
  c.valid

theorem charUnits_append_inj {c d : Char} {left right : List ℕ}
    (hsame : charUnits c ++ left = charUnits d ++ right) :
    c = d ∧ left = right := by
  have hc := toNat_range c
  have hd := toNat_range d
  unfold charUnits at hsame
  by_cases hsmall : c.toNat < 0x10000 <;>
    by_cases hsmall' : d.toNat < 0x10000 <;>
    simp only [hsmall, hsmall', if_true, if_false, List.cons_append,
      List.nil_append, List.cons.injEq] at hsame
  · exact ⟨Char.toNat_inj.mp hsame.1, hsame.2⟩
  · omega
  · omega
  · have hvalue : c.toNat = d.toNat := by omega
    exact ⟨Char.toNat_inj.mp hvalue, hsame.2.2⟩

theorem charUnits_ne_nil (c : Char) : charUnits c ≠ [] := by
  unfold charUnits
  split <;> simp

theorem flatMap_charUnits_injective :
    Function.Injective fun chars : List Char => chars.flatMap charUnits := by
  intro left
  induction left with
  | nil =>
      intro right hsame
      cases right with
      | nil => rfl
      | cons d rest =>
          have hnil : charUnits d = [] ∧ _ :=
            List.append_eq_nil_iff.mp hsame.symm
          exact absurd hnil.1 (charUnits_ne_nil d)
  | cons c rest ih =>
      intro right hsame
      cases right with
      | nil =>
          have hnil : charUnits c = [] ∧ _ := List.append_eq_nil_iff.mp hsame
          exact absurd hnil.1 (charUnits_ne_nil c)
      | cons d rest' =>
          have hparts := charUnits_append_inj hsame
          rw [hparts.1, ih hparts.2]

theorem units_injective : Function.Injective units := by
  intro left right hsame
  exact String.toList_inj.mp (flatMap_charUnits_injective hsame)

/-- The order by code units. -/
def atMost (left right : String) : Bool :=
  decide (units left ≤ units right)

theorem atMost_trans (a b c : String) (hab : atMost a b = true)
    (hbc : atMost b c = true) : atMost a c = true := by
  unfold atMost at *
  rw [decide_eq_true_eq] at *
  exact hab.trans hbc

theorem atMost_total (a b : String) :
    (atMost a b || atMost b a) = true := by
  unfold atMost
  rw [Bool.or_eq_true, decide_eq_true_eq, decide_eq_true_eq]
  exact le_total _ _

theorem atMost_antisymm {a b : String} (hab : atMost a b = true)
    (hba : atMost b a = true) : a = b := by
  unfold atMost at *
  rw [decide_eq_true_eq] at *
  exact units_injective (le_antisymm hab hba)

end Utf16
