import Mathlib.Tactic

/-!
# Merkle trees

A tree over a list of leaves splits at the largest power of two below the
number of leaves.  The audit path of a leaf and the proof that one tree is a
prefix of another follow the same recursion, and collect the subtrees they
pass by from the bottom up.
-/

namespace Merkle

variable {α D : Type*}

/-- How the empty tree, a leaf and an interior node are hashed. -/
structure Hashing (α D : Type*) where
  empty : D
  leaf : α → D
  node : D → D → D

/-! ## The split point -/

/-- The doubling loop of `split`; it is entered with a positive `k`. -/
def splitFrom (n k : ℕ) : ℕ :=
  if 0 < k ∧ k * 2 < n then splitFrom n (k * 2) else k
termination_by n - k

/-- The largest power of two below `n`. -/
def split (n : ℕ) : ℕ :=
  splitFrom n 1

theorem splitFrom_spec {n k : ℕ} (hk : 0 < k) (hlt : k < n) :
    ∃ j, splitFrom n k = k * 2 ^ j ∧ k * 2 ^ j < n ∧
      n ≤ k * 2 ^ j * 2 := by
  fun_induction splitFrom n k with
  | case1 k hmore ih =>
      obtain ⟨j, heq, hbelow, habove⟩ := ih (by omega) hmore.2
      have hpow : k * 2 * 2 ^ j = k * 2 ^ (j + 1) := by ring
      rw [hpow] at heq hbelow habove
      exact ⟨j + 1, heq, hbelow, habove⟩
  | case2 k hdone =>
      have hfits : n ≤ k * 2 := by
        by_contra hmore
        exact hdone ⟨hk, by omega⟩
      exact ⟨0, by simp, by simpa using hlt, by simpa using hfits⟩

theorem split_spec {n : ℕ} (hn : 2 ≤ n) :
    ∃ j, split n = 2 ^ j ∧ 2 ^ j < n ∧ n ≤ 2 ^ (j + 1) := by
  obtain ⟨j, heq, hbelow, habove⟩ := splitFrom_spec (k := 1) one_pos hn
  rw [one_mul] at heq hbelow habove
  exact ⟨j, heq, hbelow, by rw [pow_succ]; exact habove⟩

theorem split_lt {n : ℕ} (hn : 2 ≤ n) : split n < n := by
  obtain ⟨j, heq, hbelow, _⟩ := split_spec hn
  rw [heq]
  exact hbelow

theorem split_pos {n : ℕ} (hn : 2 ≤ n) : 0 < split n := by
  obtain ⟨j, heq, _, _⟩ := split_spec hn
  rw [heq]
  exact Nat.two_pow_pos j

/-- A power of two is the split point of every length up to its double. -/
theorem split_eq {n j : ℕ} (hbelow : 2 ^ j < n) (habove : n ≤ 2 ^ (j + 1)) :
    split n = 2 ^ j := by
  have hn : 2 ≤ n := by
    have hpos := Nat.two_pow_pos j
    omega
  obtain ⟨i, heq, hlower, hupper⟩ := split_spec hn
  have hij : i < j + 1 :=
    (Nat.pow_lt_pow_iff_right (by decide)).mp (hlower.trans_le habove)
  have hji : j < i + 1 :=
    (Nat.pow_lt_pow_iff_right (by decide)).mp (hbelow.trans_le hupper)
  rw [heq, show i = j by omega]

/-- Induction along the splits of a list of leaves. -/
@[elab_as_elim]
theorem splitInduction {motive : List α → Prop}
    (short : ∀ d, ¬ 2 ≤ d.length → motive d)
    (join : ∀ d, 2 ≤ d.length → motive (d.take (split d.length)) →
      motive (d.drop (split d.length)) → motive d)
    (d : List α) : motive d := by
  induction hn : d.length using Nat.strong_induction_on generalizing d with
  | h n ih =>
      subst hn
      by_cases hd : 2 ≤ d.length
      · have hlt := split_lt hd
        have hpos := split_pos hd
        refine join d hd (ih _ ?_ _ rfl) (ih _ ?_ _ rfl)
        · simp only [List.length_take]
          omega
        · simp only [List.length_drop]
          omega
      · exact short d hd

/-! ## Hashing a tree -/

variable (H : Hashing α D)

def treeHash (d : List α) : D :=
  match d with
  | [] => H.empty
  | [data] => H.leaf data
  | first :: second :: rest =>
      let d := first :: second :: rest
      let k := split d.length
      H.node (treeHash (d.take k)) (treeHash (d.drop k))
termination_by d.length
decreasing_by
  · have hlt := split_lt (n := (first :: second :: rest).length) (by simp)
    simp only [List.length_take]
    omega
  · have hpos := split_pos (n := (first :: second :: rest).length) (by simp)
    simp only [List.length_drop, List.length_cons] at hpos ⊢
    omega

@[simp] theorem treeHash_nil : treeHash H [] = H.empty := by
  rw [treeHash]

@[simp] theorem treeHash_singleton (data : α) :
    treeHash H [data] = H.leaf data := by
  rw [treeHash]

theorem treeHash_split {d : List α} (hd : 2 ≤ d.length) :
    treeHash H d =
      H.node (treeHash H (d.take (split d.length)))
        (treeHash H (d.drop (split d.length))) := by
  match d, hd with
  | first :: second :: rest, _ => rw [treeHash]

/-- A prefix that reaches past the split point has the same left subtree. -/
theorem treeHash_take {d : List α} {m : ℕ} (hlow : split d.length < m)
    (hle : m ≤ d.length) (hd : 2 ≤ d.length) :
    treeHash H (d.take m) =
      H.node (treeHash H (d.take (split d.length)))
        (treeHash H ((d.drop (split d.length)).take
          (m - split d.length))) := by
  obtain ⟨j, hsplit, _, habove⟩ := split_spec hd
  have hlength : (d.take m).length = m := by simp [hle]
  have hsame : split m = split d.length := by
    rw [hsplit]
    exact split_eq (hsplit ▸ hlow) (hle.trans habove)
  have hpos := split_pos hd
  have htwo : 2 ≤ (d.take m).length := by omega
  rw [treeHash_split H htwo, hlength, hsame, List.take_take,
    min_eq_left hlow.le, List.drop_take]

/-- The pairs of subtrees that hashing a tree joins. -/
def treeJoins (d : List α) : List (D × D) :=
  if 2 ≤ d.length then
    let k := split d.length
    (treeHash H (d.take k), treeHash H (d.drop k)) ::
      (treeJoins (d.take k) ++ treeJoins (d.drop k))
  else []
termination_by d.length
decreasing_by
  · rename_i hd
    have hlt := split_lt hd
    simp only [List.length_take]
    omega
  · rename_i hd
    have hpos := split_pos hd
    simp only [List.length_drop]
    omega

theorem treeJoins_split {d : List α} (hd : 2 ≤ d.length) :
    treeJoins H d =
      (treeHash H (d.take (split d.length)),
          treeHash H (d.drop (split d.length))) ::
        (treeJoins H (d.take (split d.length)) ++
          treeJoins H (d.drop (split d.length))) := by
  rw [treeJoins, if_pos hd]

/-! ## Proofs -/

/-- The recursion of `inclusion_proof`, for an index below the length. -/
def auditPath (d : List α) (m : ℕ) : List D :=
  if 2 ≤ d.length then
    let k := split d.length
    if m < k then auditPath (d.take k) m ++ [treeHash H (d.drop k)]
    else auditPath (d.drop k) (m - k) ++ [treeHash H (d.take k)]
  else []
termination_by d.length
decreasing_by
  · rename_i hd _
    have hlt := split_lt hd
    simp only [List.length_take]
    omega
  · rename_i hd _
    have hpos := split_pos hd
    simp only [List.length_drop]
    omega

def inclusionProof (d : List α) (m : ℕ) : Option (List D) :=
  if m ≥ d.length then none else some (auditPath H d m)

/-- The recursion of `consistency_proof`, for a positive size `m` of at most
the length. -/
def subproof (d : List α) (m : ℕ) (b : Bool) : List D :=
  if m = d.length then
    if b then [] else [treeHash H d]
  else if 2 ≤ d.length then
    let k := split d.length
    if m ≤ k then subproof (d.take k) m b ++ [treeHash H (d.drop k)]
    else subproof (d.drop k) (m - k) false ++ [treeHash H (d.take k)]
  else []
termination_by d.length
decreasing_by
  · rename_i hd _
    have hlt := split_lt hd
    simp only [List.length_take]
    omega
  · rename_i hd _
    have hpos := split_pos hd
    simp only [List.length_drop]
    omega

def consistencyProof (d : List α) (m : ℕ) : Option (List D) :=
  if m = 0 ∨ m > d.length then none else some (subproof H d m true)

variable {H} {d : List α} {m : ℕ}

theorem auditPath_left (hd : 2 ≤ d.length) (hm : m < split d.length) :
    auditPath H d m =
      auditPath H (d.take (split d.length)) m ++
        [treeHash H (d.drop (split d.length))] := by
  rw [auditPath, if_pos hd, if_pos hm]

theorem auditPath_right (hd : 2 ≤ d.length) (hm : split d.length ≤ m) :
    auditPath H d m =
      auditPath H (d.drop (split d.length)) (m - split d.length) ++
        [treeHash H (d.take (split d.length))] := by
  rw [auditPath, if_pos hd, if_neg (by omega)]

theorem auditPath_short (hd : ¬ 2 ≤ d.length) : auditPath H d m = [] := by
  rw [auditPath, if_neg hd]

theorem subproof_whole (b : Bool) :
    subproof H d d.length b = if b then [] else [treeHash H d] := by
  rw [subproof, if_pos rfl]

theorem subproof_left {b : Bool} (hd : 2 ≤ d.length)
    (hm : m ≤ split d.length) :
    subproof H d m b =
      subproof H (d.take (split d.length)) m b ++
        [treeHash H (d.drop (split d.length))] := by
  have hlt := split_lt hd
  rw [subproof, if_neg (by omega), if_pos hd, if_pos hm]

theorem subproof_right {b : Bool} (hlow : split d.length < m)
    (hlt : m < d.length) (hd : 2 ≤ d.length) :
    subproof H d m b =
      subproof H (d.drop (split d.length)) (m - split d.length) false ++
        [treeHash H (d.take (split d.length))] := by
  rw [subproof, if_neg (by omega), if_pos hd, if_neg (by omega)]

/-- Lengths of the two subtrees. -/
theorem length_take_split (hd : 2 ≤ d.length) :
    (d.take (split d.length)).length = split d.length := by
  simp [(split_lt hd).le]

theorem length_drop_split :
    (d.drop (split d.length)).length = d.length - split d.length :=
  List.length_drop

/-- A consistency proof leaves out the first subtree, and only where that
subtree is the whole smaller tree. -/
theorem subproof_of_isPowerOfTwo {j : ℕ} (hm : m = 2 ^ j)
    (hle : m ≤ d.length) :
    subproof H d m false =
      treeHash H (d.take m) :: subproof H d m true := by
  have hpos : 0 < m := hm ▸ Nat.two_pow_pos j
  induction d using splitInduction with
  | short d hd =>
      have heq : m = d.length := by omega
      rw [heq, subproof_whole, subproof_whole]
      simp
  | join d hd left _ =>
      rcases hle.eq_or_lt with heq | hlt
      · rw [heq, subproof_whole, subproof_whole]
        simp
      · have hkeep : m ≤ split d.length := by
          obtain ⟨i, hsplit, hbelow, habove⟩ := split_spec hd
          rw [hm, hsplit]
          have hji : j < i + 1 :=
            (Nat.pow_lt_pow_iff_right (by decide)).mp
              ((hm ▸ hlt).trans_le habove)
          exact Nat.pow_le_pow_right (by decide) (by omega)
        have hrec := left (by rw [length_take_split hd]; exact hkeep)
        rw [subproof_left hd hkeep, subproof_left hd hkeep, hrec,
          List.take_take, min_eq_left hkeep, List.cons_append]

theorem subproof_of_not_isPowerOfTwo (hm : ∀ j, m ≠ 2 ^ j)
    (hlt : m < d.length) :
    subproof H d m false = subproof H d m true := by
  induction d using splitInduction with
  | short d hd =>
      have hne : ¬ m = d.length := by omega
      rw [subproof, if_neg hne, if_neg hd, subproof, if_neg hne, if_neg hd]
  | join d hd left _ =>
      rcases le_or_gt m (split d.length) with hle | hgt
      · obtain ⟨i, hsplit, _, _⟩ := split_spec hd
        have hless : m < split d.length :=
          lt_of_le_of_ne hle (hsplit ▸ hm i)
        have hrec := left (by rw [length_take_split hd]; exact hless)
        rw [subproof_left hd hle, subproof_left hd hle, hrec]
      · rw [subproof_right hgt hlt hd, subproof_right hgt hlt hd]

end Merkle
