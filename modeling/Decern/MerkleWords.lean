import Decern.MerkleVerify
import Decern.WordArithmetic
import Mathlib.Tactic

/-!
# Merkle trees over words

The Merkle functions with each sum, product, difference, index and slice as
the words they are computed in give it.  Below half the range of a word none
of them fails, and they compute the tree's own functions.
-/

namespace Merkle

open Words (Arithmetic sliceTo sliceFrom)

variable {α D : Type} (A : Arithmetic) (H : Hashing α D)

/-! ## The functions -/

/-- The loop of `split`, for at most so many turns. -/
def splitLoop (n : ℕ) : ℕ → ℕ → Option ℕ
  | 0, _ => none
  | turns + 1, k => do
      let doubled ← A.mul k 2
      if doubled < n then splitLoop n turns doubled else some k

/-- One turn for each bit of a word. -/
def splitWord (n : ℕ) : Option ℕ :=
  splitLoop A n 64 1

/-- The first argument bounds the depth. -/
def treeHashWord : ℕ → List α → Option D
  | 0, _ => none
  | depth + 1, d =>
      if d.length = 0 then some H.empty
      else if d.length = 1 then d[0]?.map H.leaf
      else do
        let k ← splitWord A d.length
        let left ← treeHashWord depth (← sliceTo d k)
        let right ← treeHashWord depth (← sliceFrom d k)
        some (H.node left right)

def subproofWord : ℕ → List α → ℕ → Bool → Option (List D)
  | 0, _, _, _ => none
  | depth + 1, d, m, b =>
      if m = d.length then
        if b then some []
        else (treeHashWord A H (depth + 1) d).map ([·])
      else do
        let k ← splitWord A d.length
        if m ≤ k then
          let path ← subproofWord depth (← sliceTo d k) m b
          let last ← treeHashWord A H depth (← sliceFrom d k)
          some (path ++ [last])
        else
          let path ← subproofWord depth (← sliceFrom d k) (← A.sub m k) false
          let last ← treeHashWord A H depth (← sliceTo d k)
          some (path ++ [last])

/-- Nothing where it panics, and no proof where there is none. -/
def consistencyProofWord (d : List α) (m : ℕ) : Option (Option (List D)) :=
  if m = 0 ∨ m > d.length then some none
  else (subproofWord A H (d.length + 1) d m true).map some

def verifyConsistencyWord [DecidableEq D] (first second : ℕ)
    (firstRoot secondRoot : D) (path : List D) : Option Bool :=
  if first = 0 ∨ first > second then some false
  else if first = second then
    some (decide (path.isEmpty ∧ firstRoot = secondRoot))
  else do
    let _ ← A.add path.length 1
    let work := if isPowerOfTwo first then firstRoot :: path else path
    if work.isEmpty then some false
    else
      let fn ← A.sub first 1
      let sn ← A.sub second 1
      let bits := dropOnes fn sn
      let start ← work[0]?
      match consistencyWalk H bits.1 bits.2 start start
          (← sliceFrom work 1) with
      | none => some false
      | some (sn, fr, sr) =>
          some (decide (fr = firstRoot ∧ sr = secondRoot ∧ sn = 0))

/-! ## None fails -/

/-- Half the range of a word. -/
def half : ℕ := 2 ^ 63

variable {A H}

theorem splitLoop_eq (hA : A.Agrees) {n k : ℕ} (turns : ℕ) (hk : 0 < k)
    (hkn : k < n) (hn : n ≤ half) (hturns : half < k * 2 ^ turns) :
    splitLoop A n turns k = some (splitFrom n k) := by
  induction turns generalizing k with
  | zero => omega
  | succ turns ih =>
      have hmul : A.mul k 2 = some (k * 2) := by
        apply hA.mul
        simp only [half, Words.size] at hn ⊢
        omega
      rw [splitLoop, hmul, splitFrom]
      simp only [Option.bind_eq_bind, Option.bind_some]
      by_cases hmore : k * 2 < n
      · rw [if_pos hmore, if_pos ⟨hk, hmore⟩]
        apply ih (by omega) hmore
        calc
          half < k * 2 ^ (turns + 1) := hturns
          _ = k * 2 * 2 ^ turns := by ring
      · rw [if_neg hmore, if_neg (by omega)]

theorem splitWord_eq (hA : A.Agrees) {n : ℕ} (hn : 2 ≤ n) (hhalf : n ≤ half) :
    splitWord A n = some (split n) :=
  splitLoop_eq hA 64 one_pos hn hhalf (by simp [half])

theorem treeHashWord_eq (hA : A.Agrees) {d : List α} (hd : d.length ≤ half)
    {depth : ℕ} (hdepth : d.length < depth) :
    treeHashWord A H depth d = some (treeHash H d) := by
  induction depth generalizing d with
  | zero => omega
  | succ depth ih =>
      rw [treeHashWord]
      match d with
      | [] => simp
      | [data] => simp
      | first :: second :: rest =>
          have htwo : 2 ≤ (first :: second :: rest).length := by simp
          generalize first :: second :: rest = d at *
          have hlt := split_lt htwo
          have hpos := split_pos htwo
          have hleft := ih (d := d.take (split d.length))
            (by rw [length_take_split htwo]; omega)
            (by rw [length_take_split htwo]; omega)
          have hright := ih (d := d.drop (split d.length))
            (by rw [length_drop_split]; omega)
            (by rw [length_drop_split]; omega)
          rw [if_neg (by omega), if_neg (by omega), splitWord_eq hA htwo hd,
            treeHash_split H htwo]
          simp only [Option.bind_eq_bind, Option.bind_some,
            Words.sliceTo_of_le hlt.le, Words.sliceFrom_of_le hlt.le, hleft,
            hright]

theorem subproofWord_eq (hA : A.Agrees) {d : List α} (hd : d.length ≤ half)
    {m : ℕ} (hm : 0 < m) (hle : m ≤ d.length) {depth : ℕ}
    (hdepth : d.length < depth) (b : Bool) :
    subproofWord A H depth d m b = some (subproof H d m b) := by
  induction depth generalizing d m b with
  | zero => omega
  | succ depth ih =>
      rw [subproofWord]
      by_cases hwhole : m = d.length
      · rw [if_pos hwhole, hwhole, subproof_whole,
          treeHashWord_eq hA hd hdepth]
        cases b <;> rfl
      · have htwo : 2 ≤ d.length := by omega
        have hlt := split_lt htwo
        have hpos := split_pos htwo
        have hleft := length_take_split htwo
        have hright : (d.drop (split d.length)).length =
          d.length - split d.length := length_drop_split
        rw [if_neg hwhole, splitWord_eq hA htwo hd]
        simp only [Option.bind_eq_bind, Option.bind_some,
          Words.sliceTo_of_le hlt.le, Words.sliceFrom_of_le hlt.le]
        by_cases hside : m ≤ split d.length
        · rw [if_pos hside, subproof_left htwo hside,
            ih (by omega) hm (by omega) (by omega),
            treeHashWord_eq hA (by omega) (by omega)]
          rfl
        · have hsub : A.sub m (split d.length) =
              some (m - split d.length) := by
            apply hA.sub (by omega)
            simp only [half, Words.size] at hd ⊢
            omega
          rw [if_neg hside, subproof_right (by omega) (by omega) htwo, hsub]
          simp only [Option.bind_some]
          rw [ih (by omega) (by omega) (by omega) (by omega),
            treeHashWord_eq hA (by omega) (by omega)]
          rfl

theorem consistencyProofWord_eq (hA : A.Agrees) {d : List α}
    (hd : d.length ≤ half) (m : ℕ) :
    consistencyProofWord A H d m = some (consistencyProof H d m) := by
  unfold consistencyProofWord consistencyProof
  by_cases hnone : m = 0 ∨ m > d.length
  · rw [if_pos hnone, if_pos hnone]
  · rw [if_neg hnone, if_neg hnone,
      subproofWord_eq hA hd (by omega) (by omega) (by omega)]
    rfl

theorem verifyConsistencyWord_eq [DecidableEq D] (hA : A.Agrees)
    {first second : ℕ} (hsecond : second < Words.size)
    (firstRoot secondRoot : D) {path : List D} (hpath : path.length ≤ half) :
    verifyConsistencyWord A H first second firstRoot secondRoot path =
      some (verifyConsistency H first second firstRoot secondRoot path) := by
  unfold verifyConsistencyWord verifyConsistency
  by_cases hsizes : first = 0 ∨ first > second
  · rw [if_pos hsizes, if_pos hsizes]
  · rw [if_neg hsizes, if_neg hsizes]
    by_cases hsame : first = second
    · rw [if_pos hsame, if_pos hsame]
    · have hadd : A.add path.length 1 = some (path.length + 1) := by
        apply hA.add
        simp only [half, Words.size] at hpath ⊢
        omega
      have hfn : A.sub first 1 = some (first - 1) :=
        hA.sub (by omega) (by omega)
      have hsn : A.sub second 1 = some (second - 1) :=
        hA.sub (by omega) hsecond
      rw [if_neg hsame, if_neg hsame, hadd, hfn, hsn]
      simp only [Option.bind_eq_bind, Option.bind_some]
      generalize (if isPowerOfTwo first then firstRoot :: path else path) =
        work
      cases work with
      | nil => rfl
      | cons start rest =>
          simp only [List.isEmpty_cons, Bool.false_eq_true, if_false,
            List.getElem?_cons_zero, Option.bind_some,
            Words.sliceFrom_of_le (d := start :: rest) (k := 1) (by simp),
            List.drop_one, List.tail_cons]
          cases consistencyWalk H (dropOnes (first - 1) (second - 1)).1
            (dropOnes (first - 1) (second - 1)).2 start start rest <;> rfl

end Merkle
