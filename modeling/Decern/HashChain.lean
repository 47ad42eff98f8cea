import Mathlib.Tactic

/-!
# Hash chains

A chain folds its items into a head, each item hashed together with the head
before it.  Where no two inputs of the fold are hashed alike, the head fixes
the items, last one first.
-/

namespace HashChain

variable {ε H : Type*} (link : ε → H → H)

/-- The head after some items. -/
def head (start : H) (items : List ε) : H :=
  items.foldl (fun prev item => link item prev) start

/-- What each step of the fold hashes. -/
def inputs (start : H) : List ε → List (ε × H)
  | [] => []
  | item :: rest => (item, start) :: inputs (link item start) rest

@[simp] theorem head_nil (start : H) : head link start [] = start :=
  rfl

@[simp] theorem head_cons (start : H) (item : ε) (rest : List ε) :
    head link start (item :: rest) = head link (link item start) rest :=
  rfl

@[simp] theorem head_concat (start : H) (items : List ε) (item : ε) :
    head link start (items ++ [item]) =
      link item (head link start items) := by
  simp [head]

@[simp] theorem inputs_nil (start : H) : inputs link start [] = [] :=
  rfl

@[simp] theorem inputs_cons (start : H) (item : ε) (rest : List ε) :
    inputs link start (item :: rest) =
      (item, start) :: inputs link (link item start) rest :=
  rfl

theorem inputs_append (start : H) (left right : List ε) :
    inputs link start (left ++ right) =
      inputs link start left ++ inputs link (head link start left) right := by
  induction left generalizing start with
  | nil => rfl
  | cons item rest ih => simp [ih]

/-- The inputs of a prefix are among those of the whole. -/
theorem inputs_take_subset (start : H) (items : List ε) (count : ℕ) :
    inputs link start (items.take count) ⊆ inputs link start items := by
  have hsplit := inputs_append link start (items.take count)
    (items.drop count)
  rw [List.take_append_drop] at hsplit
  rw [hsplit]
  exact List.subset_append_left _ _

/-- A head that is hashed is the first one or a hash itself. -/
theorem snd_of_mem_inputs {start : H} {items : List ε} {input : ε × H}
    (hinput : input ∈ inputs link start items) :
    input.2 = start ∨ ∃ item prev, input.2 = link item prev := by
  induction items generalizing start with
  | nil => cases hinput
  | cons item rest ih =>
      rcases List.mem_cons.mp hinput with rfl | hrest
      · exact .inl rfl
      · rcases ih hrest with hstart | hhash
        · exact .inr ⟨item, start, hstart⟩
        · exact .inr hhash

/-- No input of one list is hashed like a different one of the other. -/
def Apart (left right : List (ε × H)) : Prop :=
  ∀ a ∈ left, ∀ b ∈ right, link a.1 a.2 = link b.1 b.2 → a = b

variable {link} {start : H}

theorem Apart.mono {left right left' right' : List (ε × H)}
    (hapart : Apart link left' right') (hleft : left ⊆ left')
    (hright : right ⊆ right') : Apart link left right :=
  fun a ha b hb => hapart a (hleft ha) b (hright hb)

/-- Equal heads come from equal last items on equal heads. -/
theorem Apart.last {left right : List ε} {a b : ε}
    (hapart : Apart link (inputs link start (left ++ [a]))
      (inputs link start (right ++ [b])))
    (hhead : head link start (left ++ [a]) =
      head link start (right ++ [b])) :
    a = b ∧ head link start left = head link start right ∧
      Apart link (inputs link start left) (inputs link start right) := by
  rw [inputs_append, inputs_append] at hapart
  rw [head_concat, head_concat] at hhead
  have hlast := hapart (a, head link start left) (by simp)
    (b, head link start right) (by simp) hhead
  obtain ⟨hitem, hprev⟩ := Prod.ext_iff.mp hlast
  exact ⟨hitem, hprev, hapart.mono (List.subset_append_left _ _)
    (List.subset_append_left _ _)⟩

/-- Chains of one length with one head hold the same items. -/
theorem eq_of_head_eq {left right : List ε}
    (hlength : left.length = right.length)
    (hhead : head link start left = head link start right)
    (hapart : Apart link (inputs link start left)
      (inputs link start right)) :
    left = right := by
  induction left using List.reverseRecOn generalizing right with
  | nil => exact (List.length_eq_zero_iff.mp hlength.symm).symm
  | append_singleton left a ih =>
      rcases List.eq_nil_or_concat' right with rfl | ⟨right, b, rfl⟩
      · simp at hlength
      · obtain ⟨rfl, hprev, hrest⟩ := hapart.last hhead
        rw [ih (by simpa using hlength) hprev hrest]

end HashChain
