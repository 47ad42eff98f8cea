import Decern.MerkleTree
import Mathlib.Tactic

/-!
# Merkle verifiers

The verifiers climb a tree by the bits of a leaf's index and of the last
index.  On which side each sibling stands depends on these two numbers alone,
so a walk that succeeds is a fold over the route they fix.  The last step of a
route is the split of the whole tree, and what remains is the route in the
subtree.
-/

namespace Merkle

variable {α D : Type*} (H : Hashing α D)

/-! ## Walking up -/

/-- The loop that shifts while the index is even and not zero. -/
def dropZeros (fn sn : ℕ) : ℕ × ℕ :=
  if fn % 2 = 0 ∧ fn ≠ 0 then dropZeros (fn / 2) (sn / 2) else (fn, sn)
termination_by fn

/-- The loop that shifts while the index is odd. -/
def dropOnes (fn sn : ℕ) : ℕ × ℕ :=
  if fn % 2 = 1 then dropOnes (fn / 2) (sn / 2) else (fn, sn)
termination_by fn

/-- The sibling is the left one. -/
def onLeft (fn sn : ℕ) : Bool :=
  fn % 2 = 1 ∨ fn = sn

/-- The two numbers one step further up. -/
def above (fn sn : ℕ) : ℕ × ℕ :=
  if onLeft fn sn ∧ fn % 2 = 0 then
    ((dropZeros fn sn).1 / 2, (dropZeros fn sn).2 / 2)
  else (fn / 2, sn / 2)

/-- The loop of `verify_inclusion`; nothing when it gives up. -/
def inclusionWalk (fn sn : ℕ) (r : D) : List D → Option (ℕ × D)
  | [] => some (sn, r)
  | p :: path =>
      if sn = 0 then none
      else
        inclusionWalk (above fn sn).1 (above fn sn).2
          (if onLeft fn sn then H.node p r else H.node r p) path

/-- The loop of `verify_consistency`; nothing when it gives up. -/
def consistencyWalk (fn sn : ℕ) (fr sr : D) :
    List D → Option (ℕ × D × D)
  | [] => some (sn, fr, sr)
  | c :: path =>
      if sn = 0 then none
      else
        consistencyWalk (above fn sn).1 (above fn sn).2
          (if onLeft fn sn then H.node c fr else fr)
          (if onLeft fn sn then H.node c sr else H.node sr c) path

def isPowerOfTwo (n : ℕ) : Bool :=
  n = 2 ^ n.log2

section Verifiers

variable [DecidableEq D]

def verifyInclusion (leafIndex treeSize : ℕ) (leafHash root : D)
    (path : List D) : Bool :=
  if leafIndex ≥ treeSize then false
  else
    match inclusionWalk H leafIndex (treeSize - 1) leafHash path with
    | none => false
    | some (sn, r) => sn = 0 ∧ r = root

def verifyConsistency (first second : ℕ) (firstRoot secondRoot : D)
    (path : List D) : Bool :=
  if first = 0 ∨ first > second then false
  else if first = second then path.isEmpty ∧ firstRoot = secondRoot
  else
    match if isPowerOfTwo first then firstRoot :: path else path with
    | [] => false
    | start :: rest =>
        let bits := dropOnes (first - 1) (second - 1)
        match consistencyWalk H bits.1 bits.2 start start rest with
        | none => false
        | some (sn, fr, sr) => fr = firstRoot ∧ sr = secondRoot ∧ sn = 0

end Verifiers

theorem isPowerOfTwo_iff {n : ℕ} :
    isPowerOfTwo n = true ↔ ∃ j, n = 2 ^ j := by
  simp only [isPowerOfTwo, decide_eq_true_eq]
  constructor
  · intro hn
    exact ⟨n.log2, hn⟩
  · rintro ⟨j, rfl⟩
    rw [Nat.log2_two_pow]

/-! ## Routes -/

theorem dropZeros_snd_le (fn sn : ℕ) : (dropZeros fn sn).2 ≤ sn := by
  fun_induction dropZeros fn sn with
  | case1 fn sn heven ih => omega
  | case2 fn sn hdone => exact le_rfl

theorem above_snd_lt {fn sn : ℕ} (hsn : sn ≠ 0) : (above fn sn).2 < sn := by
  have hle := dropZeros_snd_le fn sn
  unfold above
  split <;> simp only <;> omega

/-- The sides on which siblings stand, from the bottom up. -/
def route (fn sn : ℕ) : List Bool :=
  if sn = 0 then []
  else onLeft fn sn :: route (above fn sn).1 (above fn sn).2
termination_by sn
decreasing_by exact above_snd_lt ‹_›

@[simp] theorem route_zero (fn : ℕ) : route fn 0 = [] := by
  rw [route, if_pos rfl]

theorem route_pos {fn sn : ℕ} (hsn : sn ≠ 0) :
    route fn sn =
      onLeft fn sn :: route (above fn sn).1 (above fn sn).2 := by
  rw [route, if_neg hsn]

theorem route_odd {fn sn : ℕ} (hsn : sn ≠ 0) (hodd : fn % 2 = 1) :
    route fn sn = true :: route (fn / 2) (sn / 2) := by
  have habove : above fn sn = (fn / 2, sn / 2) := by
    rw [above, if_neg (by omega)]
  rw [route_pos hsn, habove]
  simp [onLeft, hodd]

theorem route_even {fn sn : ℕ} (hlt : fn < sn) (heven : fn % 2 = 0) :
    route fn sn = false :: route (fn / 2) (sn / 2) := by
  have hside : onLeft fn sn = false := by
    simp only [onLeft, decide_eq_false_iff_not]
    omega
  have habove : above fn sn = (fn / 2, sn / 2) := by
    rw [above, if_neg (by simp [hside])]
  rw [route_pos (by omega), habove, hside]

/-- The last leaf climbs past the levels where it has no sibling. -/
theorem route_self_even {n : ℕ} (hn : n ≠ 0) (heven : n % 2 = 0) :
    route n n = route (n / 2) (n / 2) := by
  have hhalf : n / 2 ≠ 0 := by omega
  have hzeros : dropZeros n n = dropZeros (n / 2) (n / 2) := by
    rw [dropZeros, if_pos ⟨heven, hn⟩]
  have hside : ∀ m, onLeft m m = true := by simp [onLeft]
  rw [route_pos hn, route_pos hhalf, hside, hside]
  congr 1
  rw [above, if_pos ⟨hside n, heven⟩, hzeros]
  by_cases hagain : n / 2 % 2 = 0
  · rw [above, if_pos ⟨hside _, hagain⟩]
  · rw [above, if_neg (by simp [hagain]), dropZeros, if_neg (by simp [hagain])]

/-- A leaf of the left subtree reaches the split from the left. -/
theorem route_left {j m s : ℕ} (hm : m < 2 ^ j) (hlow : 2 ^ j ≤ s)
    (hhigh : s < 2 ^ (j + 1)) :
    route m s = route m (2 ^ j - 1) ++ [false] := by
  induction j generalizing m s with
  | zero =>
      have hmzero : m = 0 := by omega
      have hsone : s = 1 := by omega
      rw [hmzero, hsone, route_even (by decide) rfl]
      simp
  | succ j ih =>
      have hpos := Nat.two_pow_pos j
      rw [pow_succ] at hm hlow
      rw [pow_succ 2 (j + 1), pow_succ] at hhigh
      have hpow : 2 ^ (j + 1) = 2 ^ j * 2 := pow_succ 2 j
      have hrec := ih (m := m / 2) (s := s / 2) (by omega) (by omega)
        (by omega)
      have hhalf : (2 ^ j * 2 - 1) / 2 = 2 ^ j - 1 := by omega
      rw [hpow]
      by_cases hodd : m % 2 = 1
      · rw [route_odd (by omega) hodd, route_odd (by omega) hodd, hhalf,
          hrec, List.cons_append]
      · have heven : m % 2 = 0 := by omega
        have hfull : m < 2 ^ j * 2 - 1 := by omega
        rw [route_even (by omega : m < s) heven, route_even hfull heven,
          hhalf, hrec, List.cons_append]

/-- A leaf of the right subtree reaches the split from the right. -/
theorem route_right {j m s : ℕ} (hms : m ≤ s) (hs : s < 2 ^ j) :
    route (2 ^ j + m) (2 ^ j + s) = route m s ++ [true] := by
  induction j generalizing m s with
  | zero =>
      have hmzero : m = 0 := by omega
      have hszero : s = 0 := by omega
      rw [hmzero, hszero, route_odd (by decide) rfl]
      simp
  | succ j ih =>
      have hpos := Nat.two_pow_pos j
      have hpow : 2 ^ (j + 1) = 2 ^ j * 2 := pow_succ 2 j
      have hrec := ih (m := m / 2) (s := s / 2) (by omega) (by omega)
      have hmhalf : (2 ^ j * 2 + m) / 2 = 2 ^ j + m / 2 := by omega
      have hshalf : (2 ^ j * 2 + s) / 2 = 2 ^ j + s / 2 := by omega
      rw [hpow]
      by_cases hodd : m % 2 = 1
      · rw [route_odd (by omega) (by omega), route_odd (by omega) hodd,
          hmhalf, hshalf, hrec, List.cons_append]
      · rcases hms.eq_or_lt with heq | hlt
        · subst heq
          rw [route_self_even (by omega) (by omega), hmhalf, hrec]
          by_cases hzero : m = 0
          · simp [hzero]
          · rw [route_self_even hzero (by omega)]
        · rw [route_even (by omega) (by omega),
            route_even hlt (by omega), hmhalf, hshalf, hrec,
            List.cons_append]

/-- The route of a consistency proof: it starts above the largest full
subtree that ends the smaller tree. -/
def startRoute (fn sn : ℕ) : List Bool :=
  route (dropOnes fn sn).1 (dropOnes fn sn).2

theorem startRoute_odd {fn sn : ℕ} (hodd : fn % 2 = 1) :
    startRoute fn sn = startRoute (fn / 2) (sn / 2) := by
  have hones : dropOnes fn sn = dropOnes (fn / 2) (sn / 2) := by
    rw [dropOnes, if_pos hodd]
  rw [startRoute, hones, startRoute]

theorem startRoute_even {fn sn : ℕ} (heven : fn % 2 = 0) :
    startRoute fn sn = route fn sn := by
  have hones : dropOnes fn sn = (fn, sn) := by
    rw [dropOnes, if_neg (by omega)]
  rw [startRoute, hones]

/-- A full tree of the whole size needs no step. -/
theorem startRoute_full (j : ℕ) :
    startRoute (2 ^ j - 1) (2 ^ j - 1) = [] := by
  induction j with
  | zero => simp [startRoute_even]
  | succ j ih =>
      have hpos := Nat.two_pow_pos j
      have hpow : 2 ^ (j + 1) = 2 ^ j * 2 := pow_succ 2 j
      have hhalf : (2 ^ j * 2 - 1) / 2 = 2 ^ j - 1 := by omega
      rw [hpow, startRoute_odd (by omega), hhalf, ih]

theorem startRoute_left {j m s : ℕ} (hm : m < 2 ^ j) (hlow : 2 ^ j ≤ s)
    (hhigh : s < 2 ^ (j + 1)) :
    startRoute m s = startRoute m (2 ^ j - 1) ++ [false] := by
  induction j generalizing m s with
  | zero =>
      have heven : m % 2 = 0 := by omega
      rw [startRoute_even heven, startRoute_even heven]
      exact route_left hm hlow hhigh
  | succ j ih =>
      by_cases hodd : m % 2 = 1
      · have hpos := Nat.two_pow_pos j
        have hpow : 2 ^ (j + 1) = 2 ^ j * 2 := pow_succ 2 j
        have hnext : 2 ^ (j + 1 + 1) = 2 ^ j * 2 * 2 := by ring
        have hhalf : (2 ^ (j + 1) - 1) / 2 = 2 ^ j - 1 := by omega
        rw [startRoute_odd hodd, startRoute_odd hodd, hhalf]
        exact ih (by omega) (by omega) (by omega)
      · have heven : m % 2 = 0 := by omega
        rw [startRoute_even heven, startRoute_even heven]
        exact route_left hm hlow hhigh

theorem startRoute_right {j m s : ℕ} (hms : m < s) (hs : s < 2 ^ j) :
    startRoute (2 ^ j + m) (2 ^ j + s) = startRoute m s ++ [true] := by
  induction j generalizing m s with
  | zero => omega
  | succ j ih =>
      have hpow : 2 ^ (j + 1) = 2 ^ j * 2 := pow_succ 2 j
      by_cases hodd : m % 2 = 1
      · have hmhalf : (2 ^ (j + 1) + m) / 2 = 2 ^ j + m / 2 := by omega
        have hshalf : (2 ^ (j + 1) + s) / 2 = 2 ^ j + s / 2 := by omega
        rw [startRoute_odd (by omega), startRoute_odd hodd, hmhalf, hshalf]
        exact ih (by omega) (by omega)
      · rw [startRoute_even (by omega), startRoute_even (by omega)]
        exact route_right hms.le hs

/-! ## Climbing -/

/-- One step up, with a sibling on the given side. -/
def stepUp (r : D) (step : Bool × D) : D :=
  if step.1 then H.node step.2 r else H.node r step.2

def climb (r : D) (steps : List (Bool × D)) : D :=
  steps.foldl (stepUp H) r

/-- The climb past the siblings on the left alone. -/
def climbLeft (r : D) (steps : List (Bool × D)) : D :=
  climb H r (steps.filter Prod.fst)

@[simp] theorem climb_nil (r : D) : climb H r [] = r :=
  rfl

@[simp] theorem climb_cons (r : D) (step : Bool × D)
    (steps : List (Bool × D)) :
    climb H r (step :: steps) = climb H (stepUp H r step) steps :=
  rfl

@[simp] theorem climb_concat (r : D) (steps : List (Bool × D))
    (step : Bool × D) :
    climb H r (steps ++ [step]) = stepUp H (climb H r steps) step := by
  simp [climb]

@[simp] theorem climbLeft_concat_true (r p : D) (steps : List (Bool × D)) :
    climbLeft H r (steps ++ [(true, p)]) =
      H.node p (climbLeft H r steps) := by
  simp [climbLeft, climb, stepUp]

@[simp] theorem climbLeft_concat_false (r p : D)
    (steps : List (Bool × D)) :
    climbLeft H r (steps ++ [(false, p)]) = climbLeft H r steps := by
  simp [climbLeft]

/-- An inclusion walk ends at the root exactly when its path fits the route,
and then it climbs the route. -/
theorem inclusionWalk_eq_some_iff {fn sn : ℕ} {r root : D}
    {path : List D} :
    inclusionWalk H fn sn r path = some (0, root) ↔
      path.length = (route fn sn).length ∧
        climb H r ((route fn sn).zip path) = root := by
  induction path generalizing fn sn r with
  | nil =>
      rw [inclusionWalk]
      by_cases hsn : sn = 0
      · simp [hsn]
      · simp [route_pos hsn, hsn]
  | cons p path ih =>
      rw [inclusionWalk]
      by_cases hsn : sn = 0
      · simp [hsn]
      · rw [if_neg hsn, ih, route_pos hsn]
        simp [stepUp]

theorem consistencyWalk_eq_some_iff {fn sn : ℕ} {fr sr first second : D}
    {path : List D} :
    consistencyWalk H fn sn fr sr path = some (0, first, second) ↔
      path.length = (route fn sn).length ∧
        climbLeft H fr ((route fn sn).zip path) = first ∧
        climb H sr ((route fn sn).zip path) = second := by
  induction path generalizing fn sn fr sr with
  | nil =>
      rw [consistencyWalk]
      by_cases hsn : sn = 0
      · simp [hsn, climbLeft]
      · simp [route_pos hsn, hsn]
  | cons c path ih =>
      rw [consistencyWalk]
      by_cases hsn : sn = 0
      · simp [hsn]
      · rw [if_neg hsn, ih, route_pos hsn]
        cases onLeft fn sn <;> simp [stepUp, climbLeft]

section Verifiers

variable [DecidableEq D]

theorem verifyInclusion_eq_true_iff {index size : ℕ} {leafHash root : D}
    {path : List D} :
    verifyInclusion H index size leafHash root path = true ↔
      index < size ∧
        path.length = (route index (size - 1)).length ∧
        climb H leafHash ((route index (size - 1)).zip path) = root := by
  rw [← inclusionWalk_eq_some_iff]
  unfold verifyInclusion
  by_cases hindex : index ≥ size
  · rw [if_pos hindex]
    simp [hindex]
  · rw [if_neg hindex]
    have hlt : index < size := by omega
    cases hwalk : inclusionWalk H index (size - 1) leafHash path with
    | none => simp
    | some found => simp [hlt, Prod.ext_iff]

/-- The list a consistency proof is walked over. -/
def workingPath (first : ℕ) (firstRoot : D) (path : List D) : List D :=
  if isPowerOfTwo first then firstRoot :: path else path

theorem verifyConsistency_eq_true_iff {first second : ℕ}
    {firstRoot secondRoot : D} {path : List D} (hpos : 0 < first)
    (hlt : first < second) :
    verifyConsistency H first second firstRoot secondRoot path = true ↔
      ∃ start rest, workingPath first firstRoot path = start :: rest ∧
        rest.length = (startRoute (first - 1) (second - 1)).length ∧
        climbLeft H start
          ((startRoute (first - 1) (second - 1)).zip rest) = firstRoot ∧
        climb H start
          ((startRoute (first - 1) (second - 1)).zip rest) =
            secondRoot := by
  unfold verifyConsistency
  rw [if_neg (by omega), if_neg (by omega), ← workingPath]
  cases hwork : workingPath first firstRoot path with
  | nil => simp
  | cons start rest =>
      simp only [List.cons.injEq]
      constructor
      · intro haccept
        refine ⟨start, rest, ⟨rfl, rfl⟩, ?_⟩
        rw [startRoute, ← consistencyWalk_eq_some_iff]
        split at haccept
        case h_1 => cases haccept
        case h_2 sn fr sr hwalk =>
          simp only [decide_eq_true_eq] at haccept
          rw [hwalk, haccept.1, haccept.2.1, haccept.2.2]
      · rintro ⟨_, _, ⟨rfl, rfl⟩, hclimb⟩
        rw [startRoute, ← consistencyWalk_eq_some_iff] at hclimb
        simp [hclimb]

end Verifiers

end Merkle
