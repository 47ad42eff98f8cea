import Decern.MerkleVerify
import Mathlib.Tactic

/-!
# What Merkle proofs prove

Each proof is followed along the recursion that made it: the last step of the
route joins the two subtrees at the split, and the steps before it climb one
of them.  A path that reaches the root of a tree therefore repeats the tree's
own joins, as long as no join of the climb is hashed like a different join of
the tree.
-/

namespace Merkle

variable {α D : Type*} {H : Hashing α D} {d : List α} {m : ℕ}

/-! ## The split of a route -/

theorem route_split_left (hd : 2 ≤ d.length) (hm : m < split d.length) :
    route m (d.length - 1) = route m (split d.length - 1) ++ [false] := by
  obtain ⟨j, hsplit, hbelow, habove⟩ := split_spec hd
  rw [hsplit] at hm ⊢
  exact route_left hm (by omega) (by omega)

theorem route_split_right (hlow : split d.length ≤ m) (hlt : m < d.length)
    (hd : 2 ≤ d.length) :
    route m (d.length - 1) =
      route (m - split d.length) (d.length - split d.length - 1) ++
        [true] := by
  obtain ⟨j, hsplit, hbelow, habove⟩ := split_spec hd
  rw [hsplit] at hlow ⊢
  rw [pow_succ] at habove
  have hroute := route_right (j := j) (m := m - 2 ^ j)
    (s := d.length - 2 ^ j - 1) (by omega) (by omega)
  have hm : 2 ^ j + (m - 2 ^ j) = m := by omega
  have hs : 2 ^ j + (d.length - 2 ^ j - 1) = d.length - 1 := by omega
  rw [hm, hs] at hroute
  exact hroute

theorem startRoute_split_left (hpos : 0 < m) (hm : m ≤ split d.length)
    (hd : 2 ≤ d.length) :
    startRoute (m - 1) (d.length - 1) =
      startRoute (m - 1) (split d.length - 1) ++ [false] := by
  obtain ⟨j, hsplit, hbelow, habove⟩ := split_spec hd
  rw [hsplit] at hm ⊢
  exact startRoute_left (by omega) (by omega) (by omega)

theorem startRoute_split_right (hlow : split d.length < m)
    (hlt : m < d.length) (hd : 2 ≤ d.length) :
    startRoute (m - 1) (d.length - 1) =
      startRoute (m - split d.length - 1) (d.length - split d.length - 1) ++
        [true] := by
  obtain ⟨j, hsplit, hbelow, habove⟩ := split_spec hd
  rw [hsplit] at hlow ⊢
  rw [pow_succ] at habove
  have hroute := startRoute_right (j := j) (m := m - 2 ^ j - 1)
    (s := d.length - 2 ^ j - 1) (by omega) (by omega)
  have hm : 2 ^ j + (m - 2 ^ j - 1) = m - 1 := by omega
  have hs : 2 ^ j + (d.length - 2 ^ j - 1) = d.length - 1 := by omega
  rw [hm, hs] at hroute
  exact hroute

theorem startRoute_whole (hfull : d.length = 2 ^ m) :
    startRoute (d.length - 1) (d.length - 1) = [] := by
  rw [hfull]
  exact startRoute_full m

/-! ## Joins -/

/-- The pairs that a climb joins. -/
def climbJoins (H : Hashing α D) (r : D) : List (Bool × D) → List (D × D)
  | [] => []
  | step :: steps =>
      (if step.1 then (step.2, r) else (r, step.2)) ::
        climbJoins H (stepUp H r step) steps

@[simp] theorem climbJoins_concat (r p : D) (left : Bool)
    (steps : List (Bool × D)) :
    climbJoins H r (steps ++ [(left, p)]) =
      climbJoins H r steps ++
        [if left then (p, climb H r steps)
          else (climb H r steps, p)] := by
  induction steps generalizing r with
  | nil => simp [climbJoins]
  | cons step steps ih => simp [climbJoins, ih]

/-- No pair of the second list is hashed like a different one of the
first. -/
def JoinsApart (H : Hashing α D) (tree climbed : List (D × D)) : Prop :=
  ∀ own ∈ tree, ∀ other ∈ climbed,
    H.node other.1 other.2 = H.node own.1 own.2 → other = own

/-- The joins a path needs to keep apart, in the subtree it climbs. -/
theorem JoinsApart.subtree {tree sub climbed : List (D × D)} {last : D × D}
    (hapart : JoinsApart H tree (climbed ++ [last])) (hsub : sub ⊆ tree) :
    JoinsApart H sub climbed :=
  fun own hown other hother =>
    hapart own (hsub hown) other (List.mem_append_left _ hother)

theorem treeJoins_left_subset (hd : 2 ≤ d.length) :
    treeJoins H (d.take (split d.length)) ⊆ treeJoins H d := by
  rw [treeJoins_split H hd]
  intro pair hpair
  exact List.mem_cons_of_mem _ (List.mem_append_left _ hpair)

theorem treeJoins_right_subset (hd : 2 ≤ d.length) :
    treeJoins H (d.drop (split d.length)) ⊆ treeJoins H d := by
  rw [treeJoins_split H hd]
  intro pair hpair
  exact List.mem_cons_of_mem _ (List.mem_append_right _ hpair)

/-- The join at the top of a climb that reaches the root is the tree's. -/
theorem JoinsApart.top {climbed : List (D × D)} {last : D × D}
    (hapart : JoinsApart H (treeJoins H d) (climbed ++ [last]))
    (hd : 2 ≤ d.length) (hroot : H.node last.1 last.2 = treeHash H d) :
    last = (treeHash H (d.take (split d.length)),
      treeHash H (d.drop (split d.length))) := by
  rw [treeHash_split H hd] at hroot
  refine hapart _ ?_ last (by simp) hroot
  rw [treeJoins_split H hd]
  exact List.mem_cons_self

/-- A path as long as a route that ends is a shorter path and a last step. -/
theorem zip_concat {sides : List Bool} {left : Bool} {path : List D}
    (hlength : path.length = (sides ++ [left]).length) :
    ∃ before last, path = before ++ [last] ∧ before.length = sides.length ∧
      (sides ++ [left]).zip path =
        sides.zip before ++ [(left, last)] := by
  rcases List.eq_nil_or_concat' path with rfl | ⟨before, last, rfl⟩
  · simp at hlength
  · have hbefore : before.length = sides.length := by simpa using hlength
    exact ⟨before, last, rfl, hbefore, by
      rw [List.zip_append hbefore.symm]
      rfl⟩

/-! ## Inclusion -/

/-- An audit path fits the leaf's route and climbs it to the root. -/
theorem climb_auditPath {data : α} (hm : d[m]? = some data) :
    (auditPath H d m).length = (route m (d.length - 1)).length ∧
      climb H (H.leaf data)
        ((route m (d.length - 1)).zip (auditPath H d m)) =
          treeHash H d := by
  have hlt := (List.getElem?_eq_some_iff.mp hm).choose
  induction d using splitInduction generalizing m with
  | short d hd =>
      obtain ⟨only, rfl⟩ := List.length_eq_one_iff.mp
        (by omega : d.length = 1)
      have hzero : m = 0 := by simpa using hlt
      subst hzero
      have hdata : only = data := by simpa using hm
      rw [auditPath_short hd, hdata]
      simp
  | join d hd left right =>
      rcases lt_or_ge m (split d.length) with hleft | hright
      · have hsub : (d.take (split d.length))[m]? = some data := by
          rw [List.getElem?_take_of_lt hleft]
          exact hm
        obtain ⟨hlength, hclimb⟩ :=
          left hsub (by rw [length_take_split hd]; exact hleft)
        rw [length_take_split hd] at hlength hclimb
        rw [route_split_left hd hleft, auditPath_left hd hleft]
        refine ⟨by simp [hlength], ?_⟩
        rw [List.zip_append hlength.symm]
        simp [hclimb, stepUp, treeHash_split H hd]
      · have hsub : (d.drop (split d.length))[m - split d.length]? =
            some data := by
          rw [List.getElem?_drop, Nat.add_sub_cancel' hright]
          exact hm
        obtain ⟨hlength, hclimb⟩ :=
          right hsub (by rw [length_drop_split]; omega)
        rw [length_drop_split] at hlength hclimb
        rw [route_split_right hright hlt hd, auditPath_right hd hright]
        refine ⟨by simp [hlength], ?_⟩
        rw [List.zip_append hlength.symm]
        simp [hclimb, stepUp, treeHash_split H hd]

/-- A path that climbs a leaf's route to the root starts at the leaf and is
its audit path. -/
theorem eq_auditPath_of_climb {leafHash : D} {path : List D}
    (hm : m < d.length)
    (hlength : path.length = (route m (d.length - 1)).length)
    (hclimb : climb H leafHash ((route m (d.length - 1)).zip path) =
      treeHash H d)
    (hapart : JoinsApart H (treeJoins H d)
      (climbJoins H leafHash ((route m (d.length - 1)).zip path))) :
    leafHash = H.leaf d[m] ∧ path = auditPath H d m := by
  induction d using splitInduction generalizing m path with
  | short d hd =>
      obtain ⟨data, rfl⟩ := List.length_eq_one_iff.mp
        (by omega : d.length = 1)
      have hzero : m = 0 := by simpa using hm
      subst hzero
      have hnil : path = [] := by simpa using hlength
      subst hnil
      rw [auditPath_short hd]
      simpa using hclimb
  | join d hd left right =>
      rcases lt_or_ge m (split d.length) with hleft | hright
      · rw [route_split_left hd hleft] at hlength hclimb hapart
        obtain ⟨before, last, rfl, hbefore, hzip⟩ := zip_concat hlength
        rw [hzip, climb_concat] at hclimb
        rw [hzip, climbJoins_concat] at hapart
        obtain ⟨hsub, hlast⟩ := Prod.ext_iff.mp (hapart.top hd hclimb)
        simp only [length_take_split hd] at left
        obtain ⟨hleaf, hpath⟩ := left hleft hbefore hsub
          (hapart.subtree (treeJoins_left_subset hd))
        refine ⟨by rw [hleaf, List.getElem_take], ?_⟩
        rw [auditPath_left hd hleft, ← hpath]
        exact congrArg (before ++ [·]) hlast
      · rw [route_split_right hright hm hd] at hlength hclimb hapart
        obtain ⟨before, last, rfl, hbefore, hzip⟩ := zip_concat hlength
        rw [hzip, climb_concat] at hclimb
        rw [hzip, climbJoins_concat] at hapart
        obtain ⟨hlast, hsub⟩ := Prod.ext_iff.mp (hapart.top hd hclimb)
        simp only [length_drop_split] at right
        obtain ⟨hleaf, hpath⟩ := right (by omega) hbefore hsub
          (hapart.subtree (treeJoins_right_subset hd))
        have hindex : split d.length + (m - split d.length) = m := by
          omega
        refine ⟨by simp only [hleaf, List.getElem_drop, hindex], ?_⟩
        rw [auditPath_right hd hright, ← hpath]
        exact congrArg (before ++ [·]) hlast

/-! ## Consistency -/

/-- How a consistency proof for the first `m` leaves goes down the tree: to
one side of each split, until a full subtree ends the smaller tree. -/
inductive Descent : List α → ℕ → Prop
  | full (d : List α) (j : ℕ) (hfull : d.length = 2 ^ j) :
      Descent d d.length
  | left (d : List α) (m : ℕ) (hd : 2 ≤ d.length) (hpos : 0 < m)
      (hle : m ≤ split d.length)
      (next : Descent (d.take (split d.length)) m) : Descent d m
  | right (d : List α) (m : ℕ) (hd : 2 ≤ d.length)
      (hgt : split d.length < m) (hlt : m < d.length)
      (next : Descent (d.drop (split d.length)) (m - split d.length)) :
      Descent d m

theorem descent_of_lt (hpos : 0 < m) (hlt : m < d.length) :
    Descent d m := by
  induction d using splitInduction generalizing m with
  | short d hd => omega
  | join d hd left right =>
      rcases lt_trichotomy m (split d.length) with hless | heq | hgt
      · exact .left d m hd hpos hless.le
          (left hpos (by rw [length_take_split hd]; exact hless))
      · obtain ⟨j, hpow, _, _⟩ := split_spec hd
        have hlength := length_take_split hd
        have hfull := Descent.full (d.take (split d.length)) j
          (by rw [hlength, hpow])
        rw [hlength, ← heq] at hfull
        refine .left d m hd hpos heq.le ?_
        rw [← heq]
        exact hfull
      · exact .right d m hd hgt hlt
          (right (by omega) (by rw [length_drop_split]; omega))

/-- A proof starts at a subtree, and climbs to the root of the smaller tree
past the subtrees on the left, to that of the larger past all of them. -/
theorem climb_subproof (hdescent : Descent d m) :
    ∃ start rest, subproof H d m false = start :: rest ∧
      rest.length = (startRoute (m - 1) (d.length - 1)).length ∧
      climbLeft H start
        ((startRoute (m - 1) (d.length - 1)).zip rest) =
          treeHash H (d.take m) ∧
      climb H start ((startRoute (m - 1) (d.length - 1)).zip rest) =
        treeHash H d := by
  induction hdescent with
  | full d j hfull =>
      refine ⟨treeHash H d, [], by rw [subproof_whole]; rfl, ?_⟩
      rw [startRoute_whole hfull]
      simp [climbLeft]
  | left d m hd hpos hleft _ ih =>
      obtain ⟨start, rest, hproof, hlength, hfirst, hsecond⟩ := ih
      rw [length_take_split hd] at hlength hfirst hsecond
      refine ⟨start, rest ++ [treeHash H (d.drop (split d.length))], ?_, ?_⟩
      · rw [subproof_left hd hleft, hproof, List.cons_append]
      · rw [startRoute_split_left hpos hleft hd,
          List.zip_append hlength.symm]
        refine ⟨by simp [hlength], ?_, ?_⟩
        · rw [List.zip_cons_cons, List.zip_nil_left,
            climbLeft_concat_false, hfirst, List.take_take,
            min_eq_left hleft]
        · simp [hsecond, stepUp, treeHash_split H hd]
  | right d m hd hright hlt _ ih =>
      obtain ⟨start, rest, hproof, hlength, hfirst, hsecond⟩ := ih
      rw [length_drop_split] at hlength hfirst hsecond
      refine ⟨start, rest ++ [treeHash H (d.take (split d.length))], ?_, ?_⟩
      · rw [subproof_right hright hlt hd, hproof, List.cons_append]
      · rw [startRoute_split_right hright hlt hd,
          List.zip_append hlength.symm]
        refine ⟨by simp [hlength], ?_, ?_⟩
        · rw [List.zip_cons_cons, List.zip_nil_left,
            climbLeft_concat_true, hfirst, treeHash_take H hright hlt.le hd]
        · simp [hsecond, stepUp, treeHash_split H hd]

/-- A path that climbs to the root of the larger tree climbs, past the
subtrees on the left alone, to the root of the smaller one. -/
theorem climbLeft_of_climb {start : D} {rest : List D}
    (hdescent : Descent d m)
    (hlength : rest.length = (startRoute (m - 1) (d.length - 1)).length)
    (hclimb : climb H start
      ((startRoute (m - 1) (d.length - 1)).zip rest) = treeHash H d)
    (hapart : JoinsApart H (treeJoins H d)
      (climbJoins H start
        ((startRoute (m - 1) (d.length - 1)).zip rest))) :
    climbLeft H start ((startRoute (m - 1) (d.length - 1)).zip rest) =
      treeHash H (d.take m) := by
  induction hdescent generalizing rest with
  | full d j hfull =>
      rw [startRoute_whole hfull] at hclimb ⊢
      rw [List.take_length]
      exact hclimb
  | left d m hd hpos hleft _ ih =>
      rw [startRoute_split_left hpos hleft hd] at hlength hclimb hapart ⊢
      obtain ⟨before, last, rfl, hbefore, hzip⟩ := zip_concat hlength
      rw [hzip, climb_concat] at hclimb
      rw [hzip, climbJoins_concat] at hapart
      have hsub := congrArg Prod.fst (hapart.top hd hclimb)
      simp only [length_take_split hd] at ih
      have hrec := ih hbefore hsub
        (hapart.subtree (treeJoins_left_subset hd))
      rw [List.take_take, min_eq_left hleft] at hrec
      rw [hzip, climbLeft_concat_false, hrec]
  | right d m hd hright hlt _ ih =>
      rw [startRoute_split_right hright hlt hd] at hlength hclimb hapart ⊢
      obtain ⟨before, last, rfl, hbefore, hzip⟩ := zip_concat hlength
      rw [hzip, climb_concat] at hclimb
      rw [hzip, climbJoins_concat] at hapart
      obtain ⟨hlast, hsub⟩ := Prod.ext_iff.mp (hapart.top hd hclimb)
      simp only [length_drop_split] at ih
      have hrec := ih hbefore hsub
        (hapart.subtree (treeJoins_right_subset hd))
      rw [hzip, climbLeft_concat_true, hrec,
        treeHash_take H hright hlt.le hd]
      exact congrArg (H.node · _) hlast

/-! ## The verifiers -/

section Verifiers

variable [DecidableEq D]

/-- The pairs that checking an inclusion proof joins. -/
def inclusionJoins (H : Hashing α D) (index size : ℕ) (leafHash : D)
    (path : List D) : List (D × D) :=
  climbJoins H leafHash ((route index (size - 1)).zip path)

/-- The pairs that checking a consistency proof joins on the way to the
larger root. -/
def consistencyJoins (H : Hashing α D) (first second : ℕ) (firstRoot : D)
    (path : List D) : List (D × D) :=
  match workingPath first firstRoot path with
  | [] => []
  | start :: rest =>
      climbJoins H start
        ((startRoute (first - 1) (second - 1)).zip rest)

theorem verifyInclusion_auditPath {data : α} (hm : d[m]? = some data) :
    verifyInclusion H m d.length (H.leaf data) (treeHash H d)
      (auditPath H d m) = true := by
  rw [verifyInclusion_eq_true_iff]
  exact ⟨(List.getElem?_eq_some_iff.mp hm).choose, climb_auditPath hm⟩

theorem eq_auditPath_of_verifyInclusion {leafHash : D} {path : List D}
    (haccept : verifyInclusion H m d.length leafHash (treeHash H d) path =
      true)
    (hapart : JoinsApart H (treeJoins H d)
      (inclusionJoins H m d.length leafHash path)) :
    ∃ data, d[m]? = some data ∧ leafHash = H.leaf data ∧
      path = auditPath H d m := by
  obtain ⟨hm, hlength, hclimb⟩ := (verifyInclusion_eq_true_iff H).mp haccept
  obtain ⟨hleaf, hpath⟩ := eq_auditPath_of_climb hm hlength hclimb hapart
  exact ⟨d[m], List.getElem?_eq_getElem hm, hleaf, hpath⟩

omit [DecidableEq D] in
/-- The path an honest proof is walked over starts at its first subtree. -/
theorem workingPath_subproof (hlt : m < d.length) :
    workingPath m (treeHash H (d.take m)) (subproof H d m true) =
      subproof H d m false := by
  unfold workingPath
  split
  case isTrue hpower =>
    obtain ⟨j, hm⟩ := isPowerOfTwo_iff.mp hpower
    exact (subproof_of_isPowerOfTwo hm hlt.le).symm
  case isFalse hpower =>
    refine (subproof_of_not_isPowerOfTwo (fun j hm => ?_) hlt).symm
    exact hpower (isPowerOfTwo_iff.mpr ⟨j, hm⟩)

theorem verifyConsistency_subproof (hpos : 0 < m) (hle : m ≤ d.length) :
    verifyConsistency H m d.length (treeHash H (d.take m)) (treeHash H d)
      (subproof H d m true) = true := by
  rcases hle.eq_or_lt with rfl | hlt
  · rw [subproof_whole, List.take_length]
    unfold verifyConsistency
    rw [if_neg (by omega), if_pos rfl]
    simp
  · rw [verifyConsistency_eq_true_iff H hpos hlt, workingPath_subproof hlt]
    exact climb_subproof (descent_of_lt hpos hlt)

theorem eq_treeHash_of_verifyConsistency {firstRoot : D} {path : List D}
    (hpos : 0 < m) (hle : m ≤ d.length)
    (haccept : verifyConsistency H m d.length firstRoot (treeHash H d)
      path = true)
    (hapart : JoinsApart H (treeJoins H d)
      (consistencyJoins H m d.length firstRoot path)) :
    firstRoot = treeHash H (d.take m) := by
  rcases hle.eq_or_lt with rfl | hlt
  · unfold verifyConsistency at haccept
    rw [if_neg (by omega), if_pos rfl, decide_eq_true_eq] at haccept
    rw [haccept.2, List.take_length]
  · obtain ⟨start, rest, hwork, hlength, hfirst, hsecond⟩ :=
      (verifyConsistency_eq_true_iff H hpos hlt).mp haccept
    unfold consistencyJoins at hapart
    rw [hwork] at hapart
    rw [← hfirst]
    exact climbLeft_of_climb (descent_of_lt hpos hlt) hlength hsecond hapart

end Verifiers

end Merkle
