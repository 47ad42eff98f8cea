import Decern.JsonRoundTrip
import Mathlib.Tactic

/-!
# The bound of the JSON reader

The reader's bound counts nesting and elements, both of which a text pays for
with its characters.  A bound of the text's length is therefore as good as any
larger one, and the text of one value is found by whichever reader looks for
it.
-/

namespace JsonText

variable {α β : Type}

/-- Every success leaves less than it was given. -/
def Consumes (element : List Char → Option (α × List Char)) : Prop :=
  ∀ input value rest, element input = some (value, rest) →
    rest.length < input.length

/-- The second reader repeats the first one's successes, on inputs up to a
length. -/
def AgreesUpTo (bound : ℕ)
    (element other : List Char → Option (α × List Char)) : Prop :=
  ∀ input result, input.length ≤ bound → element input = some result →
    other input = some result

theorem length_skipSpace_le (input : List Char) :
    (skipSpace input).length ≤ input.length :=
  (List.dropWhile_suffix _).length_le

theorem skipSpace_skipSpace (input : List Char) :
    skipSpace (skipSpace input) = skipSpace input := by
  induction input with
  | nil => rfl
  | cons c rest ih =>
      by_cases hspace : isSpace c = true
      · have hskip : skipSpace (c :: rest) = skipSpace rest := by
          simp [skipSpace, hspace]
        rw [hskip, ih]
      · have hskip : skipSpace (c :: rest) = c :: rest :=
          skipSpace_cons (by simpa using hspace) rest
        rw [hskip, hskip]

/-! ## Every reader consumes -/

theorem readUnits_of_push {input rest : List Char} {unit : StringUnit}
    {units : List StringUnit}
    (hread : (readUnits input).map (pushUnit unit) = some (units, rest)) :
    ∃ others, readUnits input = some (others, rest) := by
  obtain ⟨⟨others, after⟩, hunits, hpush⟩ := Option.map_eq_some_iff.mp hread
  cases hpush
  exact ⟨others, hunits⟩

theorem consumes_readUnits : Consumes readUnits := by
  intro input
  induction hlength : input.length using Nat.strong_induction_on
    generalizing input with
  | _ length ih =>
      intro value rest hread
      subst hlength
      rw [readUnits.eq_def] at hread
      cases input with
      | nil => cases hread
      | cons c tail =>
          have hpushed {unit : StringUnit} {later : List Char}
              (hlater : later.length ≤ tail.length)
              (hmap : (readUnits later).map (pushUnit unit) =
                some (value, rest)) :
              rest.length < (c :: tail).length := by
            obtain ⟨others, hunits⟩ := readUnits_of_push hmap
            have hless := ih later.length (by simp; omega) later rfl others
              rest hunits
            rw [List.length_cons]
            omega
          simp only at hread
          split_ifs at hread
          · cases hread
            simp
          · cases tail with
            | nil => cases hread
            | cons escape tail =>
                simp only at hread
                split_ifs at hread
                · rcases tail with _ | ⟨a, _ | ⟨b, _ | ⟨c, _ | ⟨d, tail⟩⟩⟩⟩
                  case cons.cons.cons.cons =>
                    obtain ⟨code, _, hread⟩ :=
                      Option.bind_eq_some_iff.mp hread
                    apply hpushed _ hread
                    simp only [List.length_cons]
                    omega
                  all_goals cases hread
                · obtain ⟨plain, _, hread⟩ :=
                    Option.bind_eq_some_iff.mp hread
                  apply hpushed _ hread
                  simp
          · exact hpushed le_rfl hread

section Lists

variable {element other : List Char → Option (α × List Char)} {close : Char}

theorem consumes_readList (helement : Consumes element) (fuel : ℕ) :
    Consumes (readList element close fuel) := by
  induction fuel with
  | zero =>
      intro input value rest hread
      cases hread
  | succ fuel ih =>
      intro input value rest hread
      obtain ⟨⟨first, after⟩, hfirst, hread⟩ :=
        Option.bind_eq_some_iff.mp hread
      have hafter := helement input first after hfirst
      have hskip := length_skipSpace_le after
      simp only at hread
      split at hread
      case h_1 => cases hread
      case h_2 c later hlater =>
        rw [hlater, List.length_cons] at hskip
        split_ifs at hread
        · obtain ⟨⟨others, final⟩, hothers, hcons⟩ :=
            Option.map_eq_some_iff.mp hread
          cases hcons
          have hless := ih later others final hothers
          change final.length < input.length
          omega
        · cases hread
          omega

theorem consumes_readBracketed (helement : Consumes element) (fuel : ℕ) :
    Consumes (readBracketed element close fuel) := by
  intro input value rest hread
  unfold readBracketed at hread
  have hskip := length_skipSpace_le input
  split at hread
  case h_1 => cases hread
  case h_2 c later hlater =>
    rw [hlater] at hskip
    split_ifs at hread
    · cases hread
      simp only [List.length_cons] at hskip
      omega
    · have hless := consumes_readList helement fuel (c :: later) value rest
        hread
      omega

theorem consumes_readMember (helement : Consumes element) :
    Consumes (readMember element) := by
  intro input value rest hread
  unfold readMember at hread
  have hskip := length_skipSpace_le input
  split at hread
  case h_1 => cases hread
  case h_2 c later hlater =>
    rw [hlater, List.length_cons] at hskip
    split_ifs at hread
    obtain ⟨⟨name, after⟩, hname, hread⟩ := Option.bind_eq_some_iff.mp hread
    have hafter := consumes_readUnits later name after hname
    have hcolon := length_skipSpace_le after
    simp only at hread
    split at hread
    case h_1 => cases hread
    case h_2 d tail htail =>
      rw [htail, List.length_cons] at hcolon
      split_ifs at hread
      obtain ⟨⟨found, final⟩, hfound, hcons⟩ :=
        Option.map_eq_some_iff.mp hread
      cases hcons
      have hless := helement tail found final hfound
      change final.length < input.length
      omega

/-! ## A bound of the length is enough -/

theorem readList_agrees (helement : Consumes element) {bound : ℕ}
    (hagrees : AgreesUpTo bound element other) {fuel more : ℕ} :
    ∀ input result, input.length ≤ bound → input.length ≤ more →
      readList element close fuel input = some result →
      readList other close more input = some result := by
  induction fuel generalizing more with
  | zero =>
      intro input result _ _ hread
      cases hread
  | succ fuel ih =>
      intro input result hbound hmore hread
      obtain ⟨⟨first, after⟩, hfirst, hread⟩ :=
        Option.bind_eq_some_iff.mp hread
      have hafter := helement input first after hfirst
      have hskip := length_skipSpace_le after
      obtain ⟨more, rfl⟩ := Nat.exists_eq_add_one_of_ne_zero
        (show more ≠ 0 by omega)
      rw [readList, hagrees input _ hbound hfirst, Option.bind_some]
      simp only at hread ⊢
      cases hlater : skipSpace after with
      | nil => simp [hlater] at hread
      | cons c later =>
          rw [hlater, List.length_cons] at hskip
          simp only [hlater] at hread ⊢
          split_ifs at hread ⊢
          · obtain ⟨result', hothers, hcons⟩ :=
              Option.map_eq_some_iff.mp hread
            rw [ih later result' (by omega) (by omega) hothers]
            exact congrArg some hcons
          · exact hread

theorem readBracketed_agrees (helement : Consumes element) {bound : ℕ}
    (hagrees : AgreesUpTo bound element other) {fuel more : ℕ}
    {input : List Char} {result : List α × List Char}
    (hbound : input.length ≤ bound) (hmore : input.length ≤ more)
    (hread : readBracketed element close fuel input = some result) :
    readBracketed other close more input = some result := by
  unfold readBracketed at hread ⊢
  have hskip := length_skipSpace_le input
  cases hlater : skipSpace input with
  | nil => simp [hlater] at hread
  | cons c later =>
      rw [hlater] at hskip
      simp only [hlater] at hread ⊢
      split_ifs at hread ⊢
      · exact hread
      · exact readList_agrees helement hagrees _ _ (by omega) (by omega)
          hread

theorem readMember_agrees {bound : ℕ}
    (hagrees : AgreesUpTo bound element other) :
    AgreesUpTo bound (readMember element) (readMember other) := by
  intro input result hbound hread
  unfold readMember at hread ⊢
  have hskip := length_skipSpace_le input
  cases hlater : skipSpace input with
  | nil => simp [hlater] at hread
  | cons c later =>
      rw [hlater, List.length_cons] at hskip
      simp only [hlater] at hread ⊢
      split_ifs at hread ⊢
      obtain ⟨⟨name, after⟩, hname, hread⟩ :=
        Option.bind_eq_some_iff.mp hread
      have hafter := consumes_readUnits later name after hname
      have hcolon := length_skipSpace_le after
      rw [hname, Option.bind_some]
      simp only at hread ⊢
      cases htail : skipSpace after with
      | nil => simp [htail] at hread
      | cons d tail =>
          rw [htail, List.length_cons] at hcolon
          simp only [htail] at hread ⊢
          split_ifs at hread ⊢
          obtain ⟨result', hfound, hcons⟩ := Option.map_eq_some_iff.mp hread
          rw [hagrees tail result' (by omega) hfound]
          exact congrArg some hcons

end Lists

/-! ## Values -/

theorem NumberText.chars_ne_nil (number : NumberText) : number.chars ≠ [] := by
  obtain ⟨c, rest, hchars, _⟩ := number.head
  simp [hchars]

theorem consumes_readNumber : Consumes readNumber := by
  intro input value rest hread
  unfold readNumber at hread
  simp only at hread
  split_ifs at hread with hnumber
  cases hread
  have hne : input.takeWhile isNumberChar ≠ [] :=
    NumberText.chars_ne_nil ⟨_, List.all_takeWhile, hnumber⟩
  have hlength := congrArg List.length
    (List.takeWhile_append_dropWhile (p := isNumberChar) (l := input))
  rw [List.length_append] at hlength
  have hpos := List.length_pos_iff.mpr hne
  omega

theorem length_le_of_readWord {word input rest : List Char}
    {result doc : Doc}
    (hread : readWord word result input = some (doc, rest)) :
    rest.length ≤ input.length := by
  unfold readWord at hread
  split_ifs at hread
  cases hread
  simp

theorem consumes_readDoc (fuel : ℕ) : Consumes (readDoc fuel) := by
  induction fuel with
  | zero =>
      intro input value rest hread
      cases hread
  | succ fuel ih =>
      intro input value rest hread
      rw [readDoc] at hread
      have hskip := length_skipSpace_le input
      split at hread
      case h_1 => cases hread
      case h_2 c later hlater =>
        rw [hlater, List.length_cons] at hskip
        have hmapped {γ : Type} {inner : Option (γ × List Char)}
            {wrap : γ → Doc}
            (hinner : ∀ found final, inner = some (found, final) →
              final.length < later.length)
            (hmap : inner.map (fun read => (wrap read.1, read.2)) =
              some (value, rest)) : rest.length < input.length := by
          obtain ⟨⟨found, final⟩, hfound, heq⟩ :=
            Option.map_eq_some_iff.mp hmap
          cases heq
          have hless := hinner found final hfound
          exact hless.trans_le (by omega)
        split_ifs at hread
        · exact hmapped (fun found final hfound =>
            consumes_readUnits later found final hfound) hread
        · exact hmapped (fun found final hfound =>
            consumes_readBracketed ih fuel later found final hfound) hread
        · exact hmapped (fun found final hfound => consumes_readBracketed
            (consumes_readMember ih) fuel later found final hfound) hread
        · have hle := length_le_of_readWord hread
          omega
        · have hle := length_le_of_readWord hread
          omega
        · have hle := length_le_of_readWord hread
          omega
        · have hless := consumes_readNumber (c :: later) value rest hread
          rw [List.length_cons] at hless
          omega

/-- A reader bounded by the text's length reads what any other one reads. -/
theorem readDoc_agrees {fuel : ℕ} (bound : ℕ) :
    AgreesUpTo bound (readDoc fuel) (readDoc bound) := by
  induction fuel generalizing bound with
  | zero =>
      intro input result _ hread
      cases hread
  | succ fuel ih =>
      intro input result hbound hread
      have hskip := length_skipSpace_le input
      rw [readDoc] at hread
      cases hlater : skipSpace input with
      | nil => simp [hlater] at hread
      | cons c later =>
          rw [hlater, List.length_cons] at hskip
          obtain ⟨bound, rfl⟩ := Nat.exists_eq_add_one_of_ne_zero
            (show bound ≠ 0 by omega)
          rw [readDoc]
          simp only [hlater] at hread ⊢
          have hmapped {γ : Type} {inner outer : Option (γ × List Char)}
              {wrap : γ × List Char → Doc × List Char}
              (hagree : ∀ found, inner = some found → outer = some found)
              (hmap : inner.map wrap = some result) :
              outer.map wrap = some result := by
            obtain ⟨found, hfound, heq⟩ := Option.map_eq_some_iff.mp hmap
            rw [hagree found hfound]
            exact congrArg some heq
          split_ifs at hread ⊢
          · exact hread
          · exact hmapped (fun found => readBracketed_agrees
              (consumes_readDoc fuel) (ih bound) (by omega) (by omega)) hread
          · exact hmapped (fun found => readBracketed_agrees
              (consumes_readMember (consumes_readDoc fuel))
              (readMember_agrees (ih bound)) (by omega) (by omega)) hread
          · exact hread
          · exact hread
          · exact hread
          · exact hread

/-! ## A whole text -/

/-- The second reader's results are the first one's, each changed. -/
def MapsTo (change : α → β) (element : List Char → Option (α × List Char))
    (other : List Char → Option (β × List Char)) : Prop :=
  ∀ input, other input =
    (element input).map fun (value, rest) => (change value, rest)

section Mapped

variable {change : α → β} {element : List Char → Option (α × List Char)}
  {other : List Char → Option (β × List Char)} {close : Char}

theorem MapsTo.readList (hmaps : MapsTo change element other) (fuel : ℕ) :
    MapsTo (List.map change) (readList element close fuel)
      (readList other close fuel) := by
  induction fuel with
  | zero => exact fun input => rfl
  | succ fuel ih =>
      intro input
      rw [JsonText.readList, JsonText.readList, hmaps input]
      cases hfirst : element input with
      | none => rfl
      | some found =>
          obtain ⟨first, after⟩ := found
          simp only [Option.map_some, Option.bind_some]
          split
          case h_1 => rfl
          case h_2 c later _ =>
            split_ifs
            · rw [ih later, Option.map_map, Option.map_map]
              rfl
            · rfl
            · rfl

theorem MapsTo.readBracketed (hmaps : MapsTo change element other)
    (fuel : ℕ) :
    MapsTo (List.map change) (readBracketed element close fuel)
      (readBracketed other close fuel) := by
  intro input
  unfold JsonText.readBracketed
  split
  case h_1 => rfl
  case h_2 c later _ =>
    split_ifs
    · rfl
    · exact hmaps.readList fuel (c :: later)

theorem MapsTo.readMember (hmaps : MapsTo change element other) :
    MapsTo (fun member : List StringUnit × α => (member.1, change member.2))
      (readMember element) (readMember other) := by
  intro input
  unfold JsonText.readMember
  split
  case h_1 => rfl
  case h_2 c later _ =>
    split_ifs
    · cases readUnits later with
      | none => rfl
      | some found =>
          obtain ⟨name, after⟩ := found
          simp only [Option.bind_some]
          split
          case h_1 => rfl
          case h_2 d tail _ =>
            split_ifs
            · rw [hmaps tail, Option.map_map, Option.map_map]
              rfl
            · rfl
    · rfl

end Mapped

theorem readDoc_skipSpace (fuel : ℕ) (input : List Char) :
    readDoc fuel (skipSpace input) = readDoc fuel input := by
  cases fuel with
  | zero => rfl
  | succ fuel => rw [readDoc, readDoc, skipSpace_skipSpace]

theorem mapsTo_readSpanned (fuel : ℕ) :
    MapsTo Spanned.doc (readSpanned fuel) (readDoc fuel) := by
  intro input
  rw [readSpanned, Option.map_map]
  simp only [Function.comp_def, readDoc_skipSpace]
  cases readDoc fuel input <;> rfl

/-- The members kept apart or not, a text reads as one tree. -/
theorem readDoc_of_readOutlineStart {fuel : ℕ} {input rest : List Char}
    {outline : Outline}
    (hread : readOutlineStart fuel input = some (outline, rest)) :
    readDoc (fuel + 1) input = some (outline.doc, rest) := by
  unfold readOutlineStart at hread
  rw [readDoc]
  cases hlater : skipSpace input with
  | nil => simp [hlater] at hread
  | cons c later =>
      simp only [hlater] at hread ⊢
      by_cases harray : c = '['
      · subst harray
        rw [if_pos rfl] at hread
        obtain ⟨⟨items, final⟩, hitems, heq⟩ :=
          Option.map_eq_some_iff.mp hread
        cases heq
        have hmaps := @MapsTo.readBracketed _ _ _ _ _ ']'
          (mapsTo_readSpanned fuel) fuel later
        simp [hmaps, hitems, Outline.doc]
      · by_cases hobject : c = '{'
        · subst hobject
          rw [if_neg harray, if_pos rfl] at hread
          obtain ⟨⟨members, final⟩, hmembers, heq⟩ :=
            Option.map_eq_some_iff.mp hread
          cases heq
          have hmaps := @MapsTo.readBracketed _ _ _ _ _ '}'
            (mapsTo_readSpanned fuel).readMember fuel later
          simp [hmaps, hmembers, Outline.doc]
        · rw [if_neg harray, if_neg hobject] at hread
          obtain ⟨⟨doc, final⟩, hdoc, heq⟩ := Option.map_eq_some_iff.mp hread
          cases heq
          rw [readDoc] at hdoc
          have hhead : skipSpace (c :: later) = c :: later := by
            rw [← hlater, skipSpace_skipSpace]
          simpa [hhead, Outline.doc] using hdoc

/-- The one value of a text is found with its text. -/
theorem readSpanned_of_readOutline {text : List Char} {outline : Outline}
    (hread : readOutline text = some outline) :
    ∃ raw rest, readSpanned text.length text = some (⟨outline.doc, raw⟩, rest)
      ∧ skipSpace rest = [] := by
  obtain ⟨⟨found, rest⟩, hstart, hend⟩ := Option.bind_eq_some_iff.mp hread
  simp only at hend
  split_ifs at hend with hblank
  cases hend
  have hdoc := readDoc_agrees text.length text _ le_rfl
    (readDoc_of_readOutlineStart hstart)
  rw [← readDoc_skipSpace] at hdoc
  refine ⟨(skipSpace text).take ((skipSpace text).length - rest.length),
    rest, ?_, hblank⟩
  rw [readSpanned]
  simp only [hdoc]
  rfl

/-! ## What a text of some length holds -/

/-- Whatever the reader reads from inputs up to a length is so. -/
def HoldsUpTo (bound : ℕ) (p : α → Prop)
    (element : List Char → Option (α × List Char)) : Prop :=
  ∀ input value rest, input.length ≤ bound →
    element input = some (value, rest) → p value

section Bounded

variable {element : List Char → Option (α × List Char)} {close : Char}
  {bound : ℕ} {p : α → Prop}

theorem HoldsUpTo.readList (helement : Consumes element)
    (hholds : HoldsUpTo bound p element) (fuel : ℕ) :
    HoldsUpTo bound (fun items => items.length ≤ fuel ∧ ∀ item ∈ items, p item)
      (readList element close fuel) := by
  induction fuel with
  | zero =>
      intro input value rest hinput hread
      cases hread
  | succ fuel ih =>
      intro input value rest hinput hread
      obtain ⟨⟨first, after⟩, hfirst, hread⟩ :=
        Option.bind_eq_some_iff.mp hread
      have hafter := helement input first after hfirst
      have hp := hholds input first after hinput hfirst
      have hskip := length_skipSpace_le after
      simp only at hread
      split at hread
      case h_1 => cases hread
      case h_2 c later hlater =>
        rw [hlater, List.length_cons] at hskip
        split_ifs at hread
        · obtain ⟨⟨others, final⟩, hothers, hcons⟩ :=
            Option.map_eq_some_iff.mp hread
          cases hcons
          obtain ⟨hlength, hrest⟩ := ih later others final (by omega) hothers
          exact ⟨Nat.succ_le_succ hlength, List.forall_mem_cons.mpr ⟨hp, hrest⟩⟩
        · cases hread
          exact ⟨by simp, by simpa using hp⟩

theorem HoldsUpTo.readBracketed (helement : Consumes element)
    (hholds : HoldsUpTo bound p element) (fuel : ℕ) :
    HoldsUpTo bound (fun items => items.length ≤ fuel ∧ ∀ item ∈ items, p item)
      (readBracketed element close fuel) := by
  intro input value rest hinput hread
  unfold JsonText.readBracketed at hread
  have hskip := length_skipSpace_le input
  split at hread
  case h_1 => cases hread
  case h_2 c later hlater =>
    rw [hlater] at hskip
    split_ifs at hread
    · cases hread
      exact ⟨Nat.zero_le _, by simp⟩
    · exact hholds.readList helement fuel (c :: later) value rest
        (by omega) hread

theorem HoldsUpTo.readMember (hholds : HoldsUpTo bound p element) :
    HoldsUpTo bound (fun member : List StringUnit × α => p member.2)
      (readMember element) := by
  intro input value rest hinput hread
  unfold JsonText.readMember at hread
  have hskip := length_skipSpace_le input
  split at hread
  case h_1 => cases hread
  case h_2 c later hlater =>
    rw [hlater, List.length_cons] at hskip
    split_ifs at hread
    obtain ⟨⟨name, after⟩, hname, hread⟩ := Option.bind_eq_some_iff.mp hread
    have hafter := consumes_readUnits later name after hname
    have hcolon := length_skipSpace_le after
    simp only at hread
    split at hread
    case h_1 => cases hread
    case h_2 d tail htail =>
      rw [htail, List.length_cons] at hcolon
      split_ifs at hread
      obtain ⟨⟨found, final⟩, hfound, hcons⟩ :=
        Option.map_eq_some_iff.mp hread
      cases hcons
      exact hholds tail found final (by omega) hfound

end Bounded

theorem consumes_readSpanned (fuel : ℕ) : Consumes (readSpanned fuel) := by
  intro input value rest hread
  obtain ⟨⟨doc, after⟩, hdoc, hcons⟩ := Option.map_eq_some_iff.mp hread
  cases hcons
  have hless := consumes_readDoc fuel (skipSpace input) doc _ hdoc
  exact hless.trans_le (length_skipSpace_le input)

theorem holdsUpTo_readSpanned (bound fuel : ℕ) :
    HoldsUpTo bound (fun child => child.raw.length ≤ bound)
      (readSpanned fuel) := by
  intro input value rest hinput hread
  obtain ⟨⟨doc, after⟩, hdoc, hcons⟩ := Option.map_eq_some_iff.mp hread
  cases hcons
  have hskip := length_skipSpace_le input
  change (List.take _ (skipSpace input)).length ≤ bound
  rw [List.length_take]
  omega

/-- The children of a text are no longer than it, and no more than its
characters. -/
def Outline.Within (bound : ℕ) : Outline → Prop
  | .leaf _ => True
  | .array items =>
      items.length ≤ bound ∧ ∀ item ∈ items, item.raw.length ≤ bound
  | .object members => ∀ member ∈ members, member.2.raw.length ≤ bound

theorem within_of_readOutline {text : List Char} {outline : Outline}
    (hread : readOutline text = some outline) :
    outline.Within text.length := by
  obtain ⟨⟨found, rest⟩, hstart, hend⟩ := Option.bind_eq_some_iff.mp hread
  simp only at hend
  split_ifs at hend
  cases hend
  unfold readOutlineStart at hstart
  have hskip := length_skipSpace_le text
  have hspanned := holdsUpTo_readSpanned text.length text.length
  split at hstart
  case h_1 => cases hstart
  case h_2 c later hlater =>
    rw [hlater, List.length_cons] at hskip
    split_ifs at hstart
    · obtain ⟨⟨items, final⟩, hitems, heq⟩ :=
        Option.map_eq_some_iff.mp hstart
      cases heq
      exact hspanned.readBracketed (consumes_readSpanned _) _ later items
        _ (by omega) hitems
    · obtain ⟨⟨members, final⟩, hmembers, heq⟩ :=
        Option.map_eq_some_iff.mp hstart
      cases heq
      exact (hspanned.readMember.readBracketed
        (consumes_readMember (consumes_readSpanned _)) _ later members _
        (by omega) hmembers).2
    · obtain ⟨⟨doc, final⟩, hdoc, heq⟩ := Option.map_eq_some_iff.mp hstart
      cases heq
      trivial

end JsonText
