import Decern.MerkleProofs
import Decern.SamplePlatform
import Mathlib.Tactic

/-!
# The Merkle layer of a ledger

The tree over the hashes of a ledger's records, with a tag in front of what a
leaf and an interior node hash.  Both proofs are accepted when they are made
from the tree, and nothing else is accepted as long as no two of the strings
hashed for the tree and for the check share a digest.
-/

namespace Decern

open ByteText (Bytes)

abbrev Digest := Vector UInt8 32

variable (P : Platform)

def Platform.digest (bytes : Bytes) : Digest :=
  ⟨(P.sha256 bytes).toArray, by simp [P.sha256_length]⟩

/-- No two of these strings share a digest. -/
def Platform.CollisionFree (strings : List Bytes) : Prop :=
  ∀ left ∈ strings, ∀ right ∈ strings,
    P.sha256 left = P.sha256 right → left = right

theorem digest_inj {left right : Bytes} :
    P.digest left = P.digest right ↔ P.sha256 left = P.sha256 right := by
  simp [Platform.digest]

@[simp] theorem toList_digest (bytes : Bytes) :
    (P.digest bytes).toList = P.sha256 bytes := by
  simp [Platform.digest]

def hashLeaf (data : Bytes) : Digest :=
  P.digest (0 :: data)

/-- What an interior node hashes. -/
def childrenInput (children : Digest × Digest) : Bytes :=
  1 :: (children.1.toList ++ children.2.toList)

def hashChildren (left right : Digest) : Digest :=
  P.digest (childrenInput (left, right))

def merkleHashing : Merkle.Hashing Bytes Digest where
  empty := P.digest []
  leaf := hashLeaf P
  node := hashChildren P

def treeHash (d : List Bytes) : Digest :=
  Merkle.treeHash (merkleHashing P) d

def inclusionProof (d : List Bytes) (m : ℕ) : Option (List Digest) :=
  Merkle.inclusionProof (merkleHashing P) d m

def consistencyProof (d : List Bytes) (m : ℕ) : Option (List Digest) :=
  Merkle.consistencyProof (merkleHashing P) d m

def verifyInclusion (leafIndex treeSize : ℕ) (leafHash root : Digest)
    (path : List Digest) : Bool :=
  Merkle.verifyInclusion (merkleHashing P) leafIndex treeSize leafHash root
    path

def verifyConsistency (first second : ℕ) (firstRoot secondRoot : Digest)
    (path : List Digest) : Bool :=
  Merkle.verifyConsistency (merkleHashing P) first second firstRoot
    secondRoot path

/-! ## What is hashed -/

theorem childrenInput_injective : Function.Injective childrenInput := by
  intro left right heq
  simp only [childrenInput, List.cons.injEq, true_and] at heq
  have hlength : left.1.toList.length = right.1.toList.length := by simp
  obtain ⟨hfirst, hsecond⟩ := List.append_inj heq hlength
  exact Prod.ext (Vector.toList_inj.mp hfirst)
    (Vector.toList_inj.mp hsecond)

/-- The strings that the interior nodes of a tree hash. -/
def treeInputs (d : List Bytes) : List Bytes :=
  (Merkle.treeJoins (merkleHashing P) d).map childrenInput

/-- The strings that checking an inclusion proof hashes. -/
def inclusionInputs (leafIndex treeSize : ℕ) (leafHash : Digest)
    (path : List Digest) : List Bytes :=
  (Merkle.inclusionJoins (merkleHashing P) leafIndex treeSize leafHash
    path).map childrenInput

/-- The strings that checking a consistency proof hashes on the way to the
larger root. -/
def consistencyInputs (first second : ℕ) (firstRoot : Digest)
    (path : List Digest) : List Bytes :=
  (Merkle.consistencyJoins (merkleHashing P) first second firstRoot
    path).map childrenInput

theorem joinsApart_of_collisionFree {tree climbed : List (Digest × Digest)}
    (hfree : P.CollisionFree
      (tree.map childrenInput ++ climbed.map childrenInput)) :
    Merkle.JoinsApart (merkleHashing P) tree climbed := by
  intro own hown other hother hnode
  have hinput := hfree (childrenInput other)
    (List.mem_append_right _ (List.mem_map_of_mem hother))
    (childrenInput own)
    (List.mem_append_left _ (List.mem_map_of_mem hown))
    ((digest_inj P).mp hnode)
  exact childrenInput_injective hinput

/-! ## The proofs -/

/-- A leaf's own proof is accepted, and under its index only the leaf's hash
with that proof is. -/
theorem inclusion_complete_and_sound :
    (∀ (d : List Bytes) (m : ℕ) (hm : m < d.length),
      ∃ path, inclusionProof P d m = some path ∧
        verifyInclusion P m d.length (hashLeaf P d[m]) (treeHash P d)
          path = true) ∧
    ∀ (d : List Bytes) (m : ℕ) (leafHash : Digest) (path : List Digest),
      P.CollisionFree
        (treeInputs P d ++ inclusionInputs P m d.length leafHash path) →
      verifyInclusion P m d.length leafHash (treeHash P d) path = true →
      ∃ hm : m < d.length, leafHash = hashLeaf P d[m] ∧
        inclusionProof P d m = some path := by
  constructor
  · intro d m hm
    refine ⟨Merkle.auditPath (merkleHashing P) d m, ?_, ?_⟩
    · rw [inclusionProof, Merkle.inclusionProof, if_neg (by omega)]
    · exact Merkle.verifyInclusion_auditPath (List.getElem?_eq_getElem hm)
  · intro d m leafHash path hfree haccept
    obtain ⟨data, hdata, hleaf, hpath⟩ :=
      Merkle.eq_auditPath_of_verifyInclusion haccept
        (joinsApart_of_collisionFree P hfree)
    obtain ⟨hm, hget⟩ := List.getElem?_eq_some_iff.mp hdata
    refine ⟨hm, by rw [hget]; exact hleaf, ?_⟩
    rw [inclusionProof, Merkle.inclusionProof, if_neg (by omega), hpath]

/-- A proof made from a tree is accepted for each of its prefixes, and only
the prefix's root is accepted as the earlier one. -/
theorem consistency_complete_and_sound :
    (∀ (d : List Bytes) (m : ℕ), 1 ≤ m → m ≤ d.length →
      ∃ path, consistencyProof P d m = some path ∧
        verifyConsistency P m d.length (treeHash P (d.take m))
          (treeHash P d) path = true) ∧
    ∀ (d : List Bytes) (m : ℕ) (firstRoot : Digest) (path : List Digest),
      1 ≤ m → m ≤ d.length →
      P.CollisionFree
        (treeInputs P d ++
          consistencyInputs P m d.length firstRoot path) →
      verifyConsistency P m d.length firstRoot (treeHash P d) path = true →
      firstRoot = treeHash P (d.take m) := by
  constructor
  · intro d m hpos hle
    refine ⟨Merkle.subproof (merkleHashing P) d m true, ?_, ?_⟩
    · rw [consistencyProof, Merkle.consistencyProof, if_neg (by omega)]
    · exact Merkle.verifyConsistency_subproof hpos hle
  · intro d m firstRoot path hpos hle hfree haccept
    exact Merkle.eq_treeHash_of_verifyConsistency hpos hle haccept
      (joinsApart_of_collisionFree P hfree)

/-! ## A tree of three leaves -/

def sampleLeaves : List Bytes :=
  [[0], [1], [2]]

def sampleSubtree : Digest :=
  hashChildren samplePlatform (hashLeaf samplePlatform [0])
    (hashLeaf samplePlatform [1])

theorem split_sampleLeaves : Merkle.split sampleLeaves.length = 2 :=
  Merkle.split_eq (j := 1) (by decide) (by decide)

theorem split_samplePair :
    Merkle.split (sampleLeaves.take 2).length = 1 :=
  Merkle.split_eq (j := 0) (by decide) (by decide)

theorem treeHash_samplePair :
    Merkle.treeHash (merkleHashing samplePlatform) (sampleLeaves.take 2) =
      sampleSubtree := by
  rw [Merkle.treeHash_split _ (by decide), split_samplePair]
  exact congrArg₂ (hashChildren samplePlatform)
    (Merkle.treeHash_singleton _ _) (Merkle.treeHash_singleton _ _)

theorem treeHash_sampleLeaves :
    treeHash samplePlatform sampleLeaves =
      hashChildren samplePlatform sampleSubtree
        (hashLeaf samplePlatform [2]) := by
  rw [treeHash, Merkle.treeHash_split _ (by decide), split_sampleLeaves,
    treeHash_samplePair]
  exact congrArg (hashChildren samplePlatform sampleSubtree)
    (Merkle.treeHash_singleton _ _)

theorem treeInputs_sampleLeaves :
    treeInputs samplePlatform sampleLeaves =
      [childrenInput (sampleSubtree, hashLeaf samplePlatform [2]),
        childrenInput (hashLeaf samplePlatform [0],
          hashLeaf samplePlatform [1])] := by
  have hlast : Merkle.treeJoins (merkleHashing samplePlatform)
      (sampleLeaves.drop 2) = [] := by
    rw [Merkle.treeJoins, if_neg (by decide)]
  have hpair : Merkle.treeJoins (merkleHashing samplePlatform)
      (sampleLeaves.take 2) =
        [(hashLeaf samplePlatform [0], hashLeaf samplePlatform [1])] := by
    rw [Merkle.treeJoins_split _ (by decide), split_samplePair,
      Merkle.treeJoins.eq_def, Merkle.treeJoins.eq_def,
      if_neg (by decide), if_neg (by decide)]
    simp [sampleLeaves, merkleHashing]
  rw [treeInputs, Merkle.treeJoins_split _ (by decide),
    split_sampleLeaves, treeHash_samplePair, hlast, hpair]
  simp [sampleLeaves, merkleHashing]

theorem Platform.CollisionFree.of_ne {first second : Bytes}
    (hne : P.sha256 first ≠ P.sha256 second) :
    P.CollisionFree [first, second, first] := by
  intro left hleft right hright hsame
  simp only [List.mem_cons, List.not_mem_nil, or_false] at hleft hright
  rcases hleft with rfl | rfl | rfl <;>
    rcases hright with rfl | rfl | rfl <;>
    first
      | rfl
      | exact absurd hsame hne
      | exact absurd hsame.symm hne

/-- The two joins of the sample tree have different digests. -/
theorem collisionFree_sampleLeaves :
    samplePlatform.CollisionFree
      (treeInputs samplePlatform sampleLeaves ++
        [childrenInput (sampleSubtree, hashLeaf samplePlatform [2])]) := by
  rw [treeInputs_sampleLeaves]
  exact Platform.CollisionFree.of_ne samplePlatform (by decide +kernel)

theorem inclusion_complete_and_sound_sample :
    ∃ hm : 2 < sampleLeaves.length,
      hashLeaf samplePlatform [2] = hashLeaf samplePlatform sampleLeaves[2] ∧
        inclusionProof samplePlatform sampleLeaves 2 =
          some [sampleSubtree] := by
  have hzeros : Merkle.dropZeros 2 2 = (1, 1) := by
    simp [Merkle.dropZeros]
  have habove : Merkle.above 2 2 = (0, 0) := by
    simp [Merkle.above, Merkle.onLeft, hzeros]
  have hroute : Merkle.route 2 2 = [true] := by
    rw [Merkle.route_pos (by decide), habove, Merkle.route_zero]
    rfl
  refine (inclusion_complete_and_sound samplePlatform).2 sampleLeaves 2 _ _
    ?_ ?_
  · have hinputs : inclusionInputs samplePlatform 2 sampleLeaves.length
        (hashLeaf samplePlatform [2]) [sampleSubtree] =
          [childrenInput (sampleSubtree, hashLeaf samplePlatform [2])] := by
      simp [inclusionInputs, Merkle.inclusionJoins, Merkle.climbJoins,
        sampleLeaves, hroute]
    rw [hinputs]
    exact collisionFree_sampleLeaves
  · refine (Merkle.verifyInclusion_eq_true_iff _).mpr ⟨by decide, ?_⟩
    rw [treeHash_sampleLeaves]
    simp [sampleLeaves, hroute, Merkle.stepUp, merkleHashing]

theorem consistency_complete_and_sound_sample :
    sampleSubtree = treeHash samplePlatform (sampleLeaves.take 2) := by
  have hones : Merkle.dropOnes 1 2 = (0, 1) := by simp [Merkle.dropOnes]
  have hroute : Merkle.startRoute 1 2 = [false] := by
    rw [Merkle.startRoute, hones, Merkle.route_even (by decide) rfl]
    simp
  have hwork : Merkle.workingPath 2 sampleSubtree
      [hashLeaf samplePlatform [2]] =
        [sampleSubtree, hashLeaf samplePlatform [2]] := by
    rw [Merkle.workingPath, 
      if_pos (by simpa using Merkle.isPowerOfTwo_iff.mpr ⟨1, rfl⟩)]
  refine (consistency_complete_and_sound samplePlatform).2 sampleLeaves 2 _
    [hashLeaf samplePlatform [2]] (by decide) (by decide) ?_ ?_
  · have hinputs : consistencyInputs samplePlatform 2 sampleLeaves.length
        sampleSubtree [hashLeaf samplePlatform [2]] =
          [childrenInput (sampleSubtree, hashLeaf samplePlatform [2])] := by
      simp [consistencyInputs, Merkle.consistencyJoins, hwork,
        Merkle.climbJoins, sampleLeaves, hroute]
    rw [hinputs]
    exact collisionFree_sampleLeaves
  · refine (Merkle.verifyConsistency_eq_true_iff _ (by decide)
      (by decide)).mpr ⟨_, _, hwork, ?_⟩
    rw [treeHash_sampleLeaves]
    simp [sampleLeaves, hroute, Merkle.climbLeft, Merkle.stepUp,
      merkleHashing]

end Decern
