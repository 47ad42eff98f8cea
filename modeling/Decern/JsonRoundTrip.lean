import Decern.JsonText
import Mathlib.Tactic

/-!
# Printed JSON text is read back

The parser reads a printed tree back as that tree, with the text of each
member kept as it was printed.  The bounds the parser carries are never what
makes it refuse.
-/

namespace JsonText

/-- Induction over a tree with the hypotheses stated by membership. -/
theorem Doc.induction {motive : Doc → Prop}
    (null : motive .null)
    (bool : ∀ value, motive (.bool value))
    (number : ∀ text, motive (.number text))
    (string : ∀ units, motive (.string units))
    (array : ∀ items, (∀ item ∈ items, motive item) → motive (.array items))
    (object : ∀ members, (∀ member ∈ members, motive member.2) →
      motive (.object members))
    (doc : Doc) : motive doc := by
  refine @Doc.rec motive
    (fun items => ∀ item ∈ items, motive item)
    (fun members => ∀ member ∈ members, motive member.2)
    (fun member => motive member.2)
    null bool number string array object ?_ ?_ ?_ ?_ ?_ doc
  · simp
  · intro head tail hhead htail item hitem
    rcases List.mem_cons.mp hitem with rfl | hrest
    · exact hhead
    · exact htail item hrest
  · simp
  · intro head tail hhead htail member hmember
    rcases List.mem_cons.mp hmember with rfl | hrest
    · exact hhead
    · exact htail member hrest
  · intro name value hvalue
    exact hvalue

theorem printItems_eq (items : List Doc) :
    printItems items = items.map print := by
  induction items with
  | nil => rfl
  | cons item rest ih => simp [printItems, ih]

/-- The text of one member. -/
def printMember (member : List StringUnit × Doc) : List Char :=
  printString member.1 ++ ':' :: print member.2

theorem printMembers_eq (members : List (List StringUnit × Doc)) :
    printMembers members = members.map printMember := by
  induction members with
  | nil => rfl
  | cons member rest ih =>
      obtain ⟨name, value⟩ := member
      simp [printMembers, ih, printMember]

/-! ## Strings -/

theorem unitOfCode_surrogate (value : {n : ℕ // 0xD800 ≤ n ∧ n ≤ 0xDFFF}) :
    unitOfCode value = .surrogate value := by
  simp [unitOfCode, value.property]

theorem unitOfCode_control {c : Char} (hc : c.toNat < 0xD800) :
    unitOfCode c.toNat = .scalar c := by
  have hnot : ¬ (0xD800 ≤ c.toNat ∧ c.toNat ≤ 0xDFFF) := by omega
  simp [unitOfCode, hnot, Char.ofNat_toNat]

@[simp] theorem readUnits_quote (rest : List Char) :
    readUnits ('"' :: rest) = some ([], rest) := by
  rw [readUnits.eq_def]
  rfl

theorem readUnits_plain {c : Char} (hquote : c ≠ '"') (hslash : c ≠ '\\')
    (hcontrol : ¬ c < ' ') (rest : List Char) :
    readUnits (c :: rest) = (readUnits rest).map (pushUnit (.scalar c)) := by
  rw [readUnits.eq_def]
  simp only [hquote, hslash, hcontrol, if_false]

theorem readUnits_plainEscape {escape plain : Char} (hescape : escape ≠ 'u')
    (hplain : plainEscape escape = some plain) (rest : List Char) :
    readUnits ('\\' :: escape :: rest) =
      (readUnits rest).map (pushUnit (.scalar plain)) := by
  rw [readUnits.eq_def]
  simp [hescape, hplain]

theorem readUnits_codeEscape {value : ℕ} (hvalue : value < 65536)
    (rest : List Char) :
    readUnits ('\\' :: 'u' :: (HexText.unitDigits value ++ rest)) =
      (readUnits rest).map (pushUnit (unitOfCode value)) := by
  have hunit := HexText.unitValue_unitDigits hvalue
  rw [readUnits.eq_def]
  simp [HexText.unitDigits, hunit]

theorem readUnits_printUnit (unit : StringUnit) (rest : List Char) :
    readUnits (printUnit unit ++ rest) =
      (readUnits rest).map (pushUnit unit) := by
  cases unit with
  | scalar c =>
      by_cases hquote : c = '"'
      · subst hquote
        exact readUnits_plainEscape (by decide) rfl rest
      by_cases hslash : c = '\\'
      · subst hslash
        exact readUnits_plainEscape (by decide) rfl rest
      by_cases hback : c = Char.ofNat 8
      · subst hback
        exact readUnits_plainEscape (by decide) rfl rest
      by_cases hform : c = Char.ofNat 12
      · subst hform
        exact readUnits_plainEscape (by decide) rfl rest
      by_cases hline : c = '\n'
      · subst hline
        exact readUnits_plainEscape (by decide) rfl rest
      by_cases hreturn : c = '\r'
      · subst hreturn
        exact readUnits_plainEscape (by decide) rfl rest
      by_cases htab : c = '\t'
      · subst htab
        exact readUnits_plainEscape (by decide) rfl rest
      by_cases hcontrol : c < ' '
      · have hlow : c.toNat < 32 := hcontrol
        have hprint : printUnit (.scalar c) =
            '\\' :: 'u' :: HexText.unitDigits c.toNat := by
          simp [printUnit, hquote, hslash, hback, hform, hline, hreturn,
            htab, hcontrol]
        rw [hprint, List.cons_append, List.cons_append,
          readUnits_codeEscape (by omega), unitOfCode_control (by omega)]
      · have hprint : printUnit (.scalar c) = [c] := by
          simp [printUnit, hquote, hslash, hback, hform, hline, hreturn,
            htab, hcontrol]
        rw [hprint]
        exact readUnits_plain hquote hslash hcontrol rest
  | surrogate value =>
      have hhigh := value.property.2
      rw [printUnit, List.cons_append, List.cons_append,
        readUnits_codeEscape (by omega), unitOfCode_surrogate]

theorem readUnits_print (units : List StringUnit) (rest : List Char) :
    readUnits (units.flatMap printUnit ++ '"' :: rest) =
      some (units, rest) := by
  induction units with
  | nil => simp
  | cons unit others ih =>
      rw [List.flatMap_cons, List.append_assoc, readUnits_printUnit, ih]
      rfl

/-! ## Numbers -/

/-- No text that starts here continues a number. -/
def Delimited (rest : List Char) : Prop :=
  ∀ c ∈ rest.head?, isNumberChar c = false

theorem delimited_nil : Delimited [] := by
  simp [Delimited]

theorem delimited_cons {c : Char} (hc : isNumberChar c = false)
    (rest : List Char) : Delimited (c :: rest) := by
  simpa [Delimited] using hc

theorem takeWhile_append_of_delimited {chars rest : List Char}
    (hchars : chars.all isNumberChar = true) (hrest : Delimited rest) :
    (chars ++ rest).takeWhile isNumberChar = chars ∧
      (chars ++ rest).dropWhile isNumberChar = rest := by
  have hall : ∀ c ∈ chars, isNumberChar c = true := by
    simpa using hchars
  rw [List.takeWhile_append_of_pos hall, List.dropWhile_append_of_pos hall]
  cases rest with
  | nil => simp
  | cons c tail =>
      have hc : isNumberChar c = false := hrest c (by simp)
      simp [hc]

theorem readNumber_chars (number : NumberText) {rest : List Char}
    (hrest : Delimited rest) :
    readNumber (number.chars ++ rest) = some (.number number, rest) := by
  obtain ⟨htake, hdrop⟩ :=
    takeWhile_append_of_delimited number.symbols hrest
  unfold readNumber
  simp only [htake, hdrop, number.grammar, dite_true]

theorem NumberText.head (number : NumberText) :
    ∃ c rest, number.chars = c :: rest ∧ (c = '-' ∨ c.isDigit = true) := by
  have hgrammar := number.grammar
  cases hchars : number.chars with
  | nil => simp [hchars, isNumber] at hgrammar
  | cons c rest =>
      refine ⟨c, rest, rfl, ?_⟩
      by_cases hminus : c = '-'
      · exact Or.inl hminus
      · right
        simp only [hchars, isNumber, hminus, if_false, integerPart]
          at hgrammar
        by_cases hzero : c = '0'
        · subst hzero
          rfl
        · simp only [hzero, if_false, Bool.and_eq_true] at hgrammar
          exact hgrammar.1

/-! ## Lists in brackets -/

@[simp] theorem skipSpace_nil : skipSpace [] = [] := rfl

theorem skipSpace_cons {c : Char} (hc : isSpace c = false)
    (rest : List Char) : skipSpace (c :: rest) = c :: rest := by
  simp [skipSpace, hc]

section Lists

variable {α : Type} {element : List Char → Option (α × List Char)}
  {close : Char} (render : α → List Char)

theorem commaSeparated_cons_cons (first second : List Char)
    (others : List (List Char)) :
    commaSeparated (first :: second :: others) =
      first ++ ',' :: commaSeparated (second :: others) := rfl

/-- Printed elements are read back one by one up to the closing bracket. -/
theorem readList_commaSeparated
    (hclose : isNumberChar close = false) (hspace : isSpace close = false)
    (hcomma : close ≠ ',') (items : List α) (hitems : items ≠ [])
    (hread : ∀ item ∈ items, ∀ rest, Delimited rest →
      element (render item ++ rest) = some (item, rest))
    (fuel : ℕ) (hfuel : items.length ≤ fuel) (rest : List Char) :
    readList element close fuel
        (commaSeparated (items.map render) ++ close :: rest) =
      some (items, rest) := by
  induction items generalizing fuel with
  | nil => exact absurd rfl hitems
  | cons first others ih =>
      obtain ⟨fuel, rfl⟩ : ∃ less, fuel = less + 1 :=
        ⟨fuel - 1, by simp only [List.length_cons] at hfuel; omega⟩
      have hfirst := hread first (by simp)
      cases others with
      | nil =>
          have hnext := hfirst (close :: rest) (delimited_cons hclose rest)
          simp [commaSeparated, readList, hnext, skipSpace_cons hspace,
            hcomma]
      | cons second tail =>
          have hothers := ih (by simp)
            (fun item hitem => hread item (List.mem_cons_of_mem _ hitem))
            fuel (by simpa using hfuel)
          have hnext := hfirst
            (',' :: (commaSeparated ((second :: tail).map render) ++
              close :: rest)) (delimited_cons (by decide) _)
          rw [List.map_cons, List.map_cons, commaSeparated_cons_cons,
            List.append_assoc, List.cons_append, readList]
          rw [List.map_cons] at hnext hothers
          rw [hnext]
          simp [skipSpace_cons (c := ',') (by decide), hothers]

theorem readBracketed_commaSeparated
    (hclose : isNumberChar close = false) (hspace : isSpace close = false)
    (hcomma : close ≠ ',') (items : List α)
    (hread : ∀ item ∈ items, ∀ rest, Delimited rest →
      element (render item ++ rest) = some (item, rest))
    (hstart : ∀ item ∈ items, ∃ c text, render item = c :: text ∧
      isSpace c = false ∧ c ≠ close)
    (fuel : ℕ) (hfuel : items.length ≤ fuel) (rest : List Char) :
    readBracketed element close fuel
        (commaSeparated (items.map render) ++ close :: rest) =
      some (items, rest) := by
  cases items with
  | nil => simp [commaSeparated, readBracketed, skipSpace_cons hspace]
  | cons first others =>
      obtain ⟨c, text, hrender, hc, hne⟩ := hstart first (by simp)
      obtain ⟨tail, htail⟩ : ∃ tail,
          commaSeparated ((first :: others).map render) ++ close :: rest =
            c :: tail := by
        cases others with
        | nil => exact ⟨_, by simp [commaSeparated, hrender]; rfl⟩
        | cons second more =>
            exact ⟨_, by simp [commaSeparated, hrender]; rfl⟩
      have hlist := readList_commaSeparated render hclose hspace
        hcomma (first :: others) (by simp) hread fuel hfuel rest
      rw [htail] at hlist ⊢
      simp [readBracketed, skipSpace_cons hc, hne, hlist]

theorem readMember_render (name : List StringUnit) (value : α)
    {rest : List Char}
    (hread : element (render value ++ rest) = some (value, rest)) :
    readMember element (printString name ++ ':' :: (render value ++ rest)) =
      some ((name, value), rest) := by
  have hname := readUnits_print name (':' :: (render value ++ rest))
  simp [readMember, printString, skipSpace_cons (c := '"') (by decide),
    skipSpace_cons (c := ':') (by decide), hname, hread]

end Lists

/-! ## Trees -/

theorem length_le_commaSeparated {texts : List (List Char)}
    {text : List Char} (htext : text ∈ texts) :
    text.length ≤ (commaSeparated texts).length := by
  induction texts with
  | nil => simp at htext
  | cons first others ih =>
      cases others with
      | nil =>
          rw [List.mem_singleton] at htext
          simp [htext, commaSeparated]
      | cons second tail =>
          rw [commaSeparated_cons_cons, List.length_append,
            List.length_cons]
          rcases List.mem_cons.mp htext with rfl | hrest
          · omega
          · have hle := ih hrest
            omega

theorem count_le_commaSeparated (texts : List (List Char)) :
    texts.length ≤ (commaSeparated texts).length + 1 := by
  induction texts with
  | nil => simp
  | cons first others ih =>
      cases others with
      | nil => simp
      | cons second tail =>
          rw [commaSeparated_cons_cons]
          simp only [List.length_append, List.length_cons] at ih ⊢
          omega

theorem isSpace_eq_false_of_isNumberStart {c : Char}
    (hc : c = '-' ∨ c.isDigit = true) :
    isSpace c = false ∧ c ≠ '"' ∧ c ≠ '[' ∧ c ≠ '{' ∧ c ≠ 'n' ∧ c ≠ 't' ∧
      c ≠ 'f' ∧ c ≠ ']' := by
  rcases hc with rfl | hdigit
  · decide
  · refine ⟨?_, ?_, ?_, ?_, ?_, ?_, ?_, ?_⟩
    · simp only [isSpace, Bool.or_eq_false_iff, beq_eq_false_iff_ne]
      refine ⟨⟨⟨?_, ?_⟩, ?_⟩, ?_⟩ <;>
        · rintro rfl
          exact absurd hdigit (by decide)
    all_goals
      rintro rfl
      exact absurd hdigit (by decide)

/-- A printed tree starts with neither space nor a closing bracket. -/
theorem print_head (doc : Doc) :
    ∃ c text, print doc = c :: text ∧ isSpace c = false ∧ c ≠ ']' := by
  cases doc with
  | null => exact ⟨_, _, rfl, by decide, by decide⟩
  | bool value =>
      cases value <;> exact ⟨_, _, rfl, by decide, by decide⟩
  | number number =>
      obtain ⟨c, text, hchars, hstart⟩ := number.head
      obtain ⟨hspace, _, _, _, _, _, _, hclose⟩ :=
        isSpace_eq_false_of_isNumberStart hstart
      exact ⟨c, text, hchars, hspace, hclose⟩
  | string units => exact ⟨_, _, rfl, by decide, by decide⟩
  | array items => exact ⟨_, _, rfl, by decide, by decide⟩
  | object members => exact ⟨_, _, rfl, by decide, by decide⟩

theorem printMember_head (member : List StringUnit × Doc) :
    ∃ c text, printMember member = c :: text ∧ isSpace c = false ∧
      c ≠ '}' :=
  ⟨_, _, rfl, by decide, by decide⟩

theorem print_array (items : List Doc) :
    print (.array items) =
      '[' :: (commaSeparated (items.map print) ++ [']']) := by
  rw [print, printItems_eq]

theorem print_object (members : List (List StringUnit × Doc)) :
    print (.object members) =
      '{' :: (commaSeparated (members.map printMember) ++ ['}']) := by
  rw [print, printMembers_eq]

/-- A printed tree is read back, whatever delimits it. -/
theorem readDoc_print (doc : Doc) {fuel : ℕ}
    (hfuel : (print doc).length ≤ fuel) {rest : List Char}
    (hrest : Delimited rest) :
    readDoc fuel (print doc ++ rest) = some (doc, rest) := by
  induction doc using Doc.induction generalizing fuel rest with
  | null =>
      obtain ⟨fuel, rfl⟩ : ∃ less, fuel = less + 1 :=
        ⟨fuel - 1, by simp [print] at hfuel; omega⟩
      simp [readDoc, print, skipSpace_cons (c := 'n') (by decide), readWord]
  | bool value =>
      obtain ⟨fuel, rfl⟩ : ∃ less, fuel = less + 1 :=
        ⟨fuel - 1, by cases value <;> (simp [print] at hfuel; omega)⟩
      cases value with
      | true =>
          simp [readDoc, print, skipSpace_cons (c := 't') (by decide),
            readWord]
      | false =>
          simp [readDoc, print, skipSpace_cons (c := 'f') (by decide),
            readWord]
  | number number =>
      obtain ⟨c, text, hchars, hstart⟩ := number.head
      obtain ⟨fuel, rfl⟩ : ∃ less, fuel = less + 1 :=
        ⟨fuel - 1, by simp [print, hchars] at hfuel; omega⟩
      obtain ⟨hspace, hquote, hopen, hbrace, hn, ht, hf, _⟩ :=
        isSpace_eq_false_of_isNumberStart hstart
      have hnumber := readNumber_chars number hrest
      rw [hchars] at hnumber
      simp only [print, hchars, List.cons_append] at hnumber ⊢
      simp only [readDoc, skipSpace_cons hspace, hquote, hopen, hbrace, hn,
        ht, hf, if_false, hnumber]
  | string units =>
      obtain ⟨fuel, rfl⟩ : ∃ less, fuel = less + 1 :=
        ⟨fuel - 1, by simp [print, printString] at hfuel; omega⟩
      have hunits := readUnits_print units rest
      simp [readDoc, print, printString, skipSpace_cons (c := '"')
        (by decide), hunits]
  | array items ih =>
      rw [print_array, List.length_cons, List.length_append] at hfuel
      obtain ⟨fuel, rfl⟩ : ∃ less, fuel = less + 1 := ⟨fuel - 1, by omega⟩
      have hcount := count_le_commaSeparated (items.map print)
      simp only [List.length_map, List.length_singleton] at hcount hfuel
      have hread : ∀ item ∈ items, ∀ rest, Delimited rest →
          readDoc fuel (print item ++ rest) = some (item, rest) := by
        intro item hitem rest hrest
        have hle := length_le_commaSeparated
          (List.mem_map_of_mem (f := print) hitem)
        exact ih item hitem (by omega) hrest
      have hlist : readBracketed (readDoc fuel) ']' fuel
          (commaSeparated (items.map print) ++ ']' :: rest) =
            some (items, rest) :=
        readBracketed_commaSeparated print (by decide) (by decide)
          (by decide) items hread (fun item _ => print_head item) fuel
          (by omega) rest
      rw [print_array, List.cons_append, List.append_assoc,
        List.singleton_append]
      simp [readDoc, skipSpace_cons (c := '[') (by decide), hlist]
  | object members ih =>
      rw [print_object, List.length_cons, List.length_append] at hfuel
      obtain ⟨fuel, rfl⟩ : ∃ less, fuel = less + 1 := ⟨fuel - 1, by omega⟩
      have hcount := count_le_commaSeparated (members.map printMember)
      simp only [List.length_map, List.length_singleton] at hcount hfuel
      have hread : ∀ member ∈ members, ∀ rest, Delimited rest →
          readMember (readDoc fuel) (printMember member ++ rest) =
            some (member, rest) := by
        intro member hmember rest hrest
        have hle := length_le_commaSeparated
          (List.mem_map_of_mem (f := printMember) hmember)
        have hvalue : (print member.2).length ≤ fuel := by
          simp [printMember] at hle
          omega
        have hmember := readMember_render print member.1 member.2
          (ih member hmember hvalue hrest)
        simpa [printMember] using hmember
      have hlist : readBracketed (readMember (readDoc fuel)) '}' fuel
          (commaSeparated (members.map printMember) ++ '}' :: rest) =
            some (members, rest) :=
        readBracketed_commaSeparated printMember (by decide) (by decide)
          (by decide) members hread
          (fun member _ => printMember_head member) fuel (by omega) rest
      rw [print_object, List.cons_append, List.append_assoc,
        List.singleton_append]
      simp [readDoc, skipSpace_cons (c := '{') (by decide), hlist]

/-! ## Whole texts -/

theorem readSpanned_print (doc : Doc) {fuel : ℕ}
    (hfuel : (print doc).length ≤ fuel) {rest : List Char}
    (hrest : Delimited rest) :
    readSpanned fuel (print doc ++ rest) =
      some (⟨doc, print doc⟩, rest) := by
  obtain ⟨c, text, hprint, hspace, _⟩ := print_head doc
  have hskip : skipSpace (print doc ++ rest) = print doc ++ rest := by
    rw [hprint, List.cons_append]
    exact skipSpace_cons hspace _
  rw [readSpanned]
  simp only [hskip, readDoc_print doc hfuel hrest, Option.map_some]
  simp

/-- A printed tree with the printed text of each child. -/
def spanned (doc : Doc) : Spanned :=
  ⟨doc, print doc⟩

/-- Reading a printed object keeps the printed text of each member. -/
theorem readOutline_print_object
    (members : List (List StringUnit × Doc)) :
    readOutline (print (.object members)) =
      some (.object
        (members.map fun member => (member.1, spanned member.2))) := by
  have hcount := count_le_commaSeparated (members.map printMember)
  rw [List.length_map] at hcount
  have hlength : (print (.object members)).length =
      (commaSeparated (members.map printMember)).length + 2 := by
    rw [print_object]
    simp
  let render := fun member : List StringUnit × Spanned =>
    printMember (member.1, member.2.doc)
  have hread : ∀ member ∈ members.map fun member =>
        (member.1, spanned member.2), ∀ rest, Delimited rest →
      readMember (readSpanned (print (.object members)).length)
          (render member ++ rest) = some (member, rest) := by
    intro member hmember rest hrest
    obtain ⟨source, hsource, rfl⟩ := List.mem_map.mp hmember
    have hle := length_le_commaSeparated
      (List.mem_map_of_mem (f := printMember) hsource)
    have hvalue : (print source.2).length ≤
        (print (.object members)).length := by
      simp [printMember] at hle
      omega
    have hresult := readMember_render (fun value => print value.doc)
      source.1 (spanned source.2)
      (readSpanned_print source.2 hvalue hrest)
    simpa [render, printMember, spanned] using hresult
  have hlist : readBracketed
      (readMember (readSpanned (print (.object members)).length)) '}'
      (print (.object members)).length
      (commaSeparated ((members.map fun member =>
        (member.1, spanned member.2)).map render) ++ ['}']) = _ :=
    readBracketed_commaSeparated render (by decide) (by decide)
      (by decide) _ hread (fun member _ => printMember_head _) _
      (by rw [List.length_map]; omega) []
  rw [List.map_map] at hlist
  have hmembers : render ∘ (fun member : List StringUnit × Doc =>
      (member.1, spanned member.2)) = printMember := by
    funext member
    rfl
  rw [hmembers] at hlist
  have hprint : print (.object members) =
      '{' :: (commaSeparated (members.map printMember) ++ ['}']) :=
    print_object members
  unfold readOutline readOutlineStart
  generalize hfuel : (print (.object members)).length = fuel at hlist
  rw [hprint, skipSpace_cons (c := '{') (by decide)]
  simp [hlist]

/-- Reading a printed array keeps the printed text of each item. -/
theorem readOutline_print_array (items : List Doc) :
    readOutline (print (.array items)) =
      some (.array (items.map spanned)) := by
  have hcount := count_le_commaSeparated (items.map print)
  rw [List.length_map] at hcount
  have hlength : (print (.array items)).length =
      (commaSeparated (items.map print)).length + 2 := by
    rw [print_array]
    simp
  let render := fun item : Spanned => print item.doc
  have hread : ∀ item ∈ items.map spanned, ∀ rest, Delimited rest →
      readSpanned (print (.array items)).length (render item ++ rest) =
        some (item, rest) := by
    intro item hitem rest hrest
    obtain ⟨source, hsource, rfl⟩ := List.mem_map.mp hitem
    have hle := length_le_commaSeparated
      (List.mem_map_of_mem (f := print) hsource)
    exact readSpanned_print source (by omega) hrest
  have hstart : ∀ item ∈ items.map spanned, ∃ c text,
      render item = c :: text ∧ isSpace c = false ∧ c ≠ ']' := by
    intro item _
    exact print_head item.doc
  have hlist : readBracketed
      (readSpanned (print (.array items)).length) ']'
      (print (.array items)).length
      (commaSeparated ((items.map spanned).map render) ++ [']']) = _ :=
    readBracketed_commaSeparated render (by decide) (by decide)
      (by decide) _ hread hstart _ (by rw [List.length_map]; omega) []
  rw [List.map_map] at hlist
  have hitems : render ∘ spanned = print := by
    funext item
    rfl
  rw [hitems] at hlist
  have hprint : print (.array items) =
      '[' :: (commaSeparated (items.map print) ++ [']']) :=
    print_array items
  unfold readOutline readOutlineStart
  generalize hfuel : (print (.array items)).length = fuel at hlist
  rw [hprint, skipSpace_cons (c := '[') (by decide)]
  simp [hlist]

theorem parse_print_object (members : List (List StringUnit × Doc)) :
    parse (print (.object members)) = some (.object members) := by
  rw [parse, readOutline_print_object, Option.map_some, Outline.doc,
    List.map_map]
  have hdoc : (fun member : List StringUnit × Spanned =>
      (member.1, member.2.doc)) ∘ (fun member : List StringUnit × Doc =>
        (member.1, spanned member.2)) = id := by
    funext member
    rfl
  rw [hdoc, List.map_id]

theorem parse_print_array (items : List Doc) :
    parse (print (.array items)) = some (.array items) := by
  rw [parse, readOutline_print_array, Option.map_some, Outline.doc,
    List.map_map]
  have hdoc : Spanned.doc ∘ spanned = id := by
    funext item
    rfl
  rw [hdoc, List.map_id]

theorem readOutlineStart_leaf {fuel : ℕ} {c : Char} {text : List Char}
    (hspace : isSpace c = false) (harray : c ≠ '[') (hobject : c ≠ '{') :
    readOutlineStart fuel (c :: text) =
      (readDoc (fuel + 1) (c :: text)).map fun read =>
        (.leaf read.1, read.2) := by
  unfold readOutlineStart
  rw [skipSpace_cons hspace]
  simp only [if_neg harray, if_neg hobject]

theorem parse_print_leaf {doc : Doc} {c : Char} {text : List Char}
    (hprint : print doc = c :: text) (hspace : isSpace c = false)
    (harray : c ≠ '[') (hobject : c ≠ '{') :
    parse (print doc) = some doc := by
  have hread : readDoc ((print doc).length + 1) (print doc ++ []) =
      some (doc, []) := readDoc_print doc (Nat.le_succ _) delimited_nil
  rw [List.append_nil] at hread
  have hstart : readOutlineStart (print doc).length (print doc) =
      some (.leaf doc, []) := by
    generalize (print doc).length = fuel at hread
    rw [hprint] at hread ⊢
    rw [readOutlineStart_leaf hspace harray hobject, hread, Option.map_some]
  have hend : skipSpace [] = [] := rfl
  rw [parse, readOutline, hstart, Option.bind_some]
  dsimp only
  rw [if_pos hend, Option.map_some, Outline.doc]

theorem parse_print (doc : Doc) : parse (print doc) = some doc := by
  cases doc with
  | null =>
      exact parse_print_leaf rfl (by decide) (by decide) (by decide)
  | bool value =>
      cases value <;>
        exact parse_print_leaf rfl (by decide) (by decide) (by decide)
  | number number =>
      obtain ⟨c, text, hchars, hstart⟩ := number.head
      have hfacts := isSpace_eq_false_of_isNumberStart hstart
      exact parse_print_leaf hchars hfacts.1 hfacts.2.2.1 hfacts.2.2.2.1
  | string units =>
      exact parse_print_leaf rfl (by decide) (by decide) (by decide)
  | array items => exact parse_print_array items
  | object members => exact parse_print_object members

/-! ## Printed text holds no control character -/

theorem not_lt_space_of_isNumberChar {c : Char}
    (hc : isNumberChar c = true) : ¬ c < ' ' := by
  intro hlow
  have hvalue : c.toNat < 32 := hlow
  simp only [isNumberChar, Bool.or_eq_true, beq_iff_eq] at hc
  rcases hc with ((((hdigit | rfl) | rfl) | rfl) | rfl) | rfl
  · have hbounds := Char.isDigit_iff_toNat.mp hdigit
    have hzero : '0'.toNat = 48 := rfl
    omega
  all_goals revert hvalue; decide

theorem not_lt_space_digitChar (value : ℕ) :
    ¬ Nat.digitChar (value % 16) < ' ' := by
  have hdigits : ∀ digit : Fin 16, ¬ Nat.digitChar digit < ' ' := by decide
  exact hdigits ⟨value % 16, Nat.mod_lt value (by omega)⟩

theorem not_lt_space_unitDigits {value : ℕ} {c : Char}
    (hc : c ∈ HexText.unitDigits value) : ¬ c < ' ' := by
  simp only [HexText.unitDigits, List.mem_cons, List.not_mem_nil,
    or_false] at hc
  rcases hc with rfl | rfl | rfl | rfl <;> exact not_lt_space_digitChar _

theorem not_lt_space_printUnit {unit : StringUnit} {c : Char}
    (hc : c ∈ printUnit unit) : ¬ c < ' ' := by
  cases unit with
  | scalar value =>
      have hpair : ∀ escape : Char, ¬ escape < ' ' →
          c ∈ ['\\', escape] → ¬ c < ' ' := by
        intro escape hescape hmem
        simp only [List.mem_cons, List.not_mem_nil, or_false] at hmem
        rcases hmem with rfl | rfl
        · decide
        · exact hescape
      rw [printUnit] at hc
      split_ifs at hc with _ _ _ _ _ _ _ hcontrol
      · exact hpair _ (by decide) hc
      · exact hpair _ (by decide) hc
      · exact hpair _ (by decide) hc
      · exact hpair _ (by decide) hc
      · exact hpair _ (by decide) hc
      · exact hpair _ (by decide) hc
      · exact hpair _ (by decide) hc
      · simp only [List.mem_cons] at hc
        rcases hc with rfl | rfl | hdigit
        · decide
        · decide
        · exact not_lt_space_unitDigits hdigit
      · rw [List.mem_singleton] at hc
        rwa [hc]
  | surrogate value =>
      simp only [printUnit, List.mem_cons] at hc
      rcases hc with rfl | rfl | hdigit
      · decide
      · decide
      · exact not_lt_space_unitDigits hdigit

theorem not_lt_space_printString {units : List StringUnit} {c : Char}
    (hc : c ∈ printString units) : ¬ c < ' ' := by
  simp only [printString, List.mem_cons, List.mem_append, List.mem_flatMap,
    List.not_mem_nil, or_false] at hc
  rcases hc with rfl | ⟨unit, -, hunit⟩ | rfl
  · decide
  · exact not_lt_space_printUnit hunit
  · decide

theorem mem_commaSeparated {texts : List (List Char)} {c : Char}
    (hc : c ∈ commaSeparated texts) : c = ',' ∨ ∃ text ∈ texts, c ∈ text := by
  induction texts with
  | nil => simp [commaSeparated] at hc
  | cons first others ih =>
      cases others with
      | nil => exact Or.inr ⟨first, by simp, hc⟩
      | cons second tail =>
          rw [commaSeparated_cons_cons, List.mem_append, List.mem_cons] at hc
          rcases hc with hfirst | hcomma | hrest
          · exact Or.inr ⟨first, by simp, hfirst⟩
          · exact Or.inl hcomma
          · rcases ih hrest with hcomma | ⟨text, htext, hmem⟩
            · exact Or.inl hcomma
            · exact Or.inr ⟨text, List.mem_cons_of_mem _ htext, hmem⟩

theorem not_lt_space_of_all {text : List Char}
    (hall : text.all (fun c => decide (¬ c < ' ')) = true) :
    ∀ c ∈ text, ¬ c < ' ' := by
  simpa using hall

/-- Everything printed is a space or above: a line of it is one line. -/
theorem not_lt_space_print (doc : Doc) :
    ∀ c ∈ print doc, ¬ c < ' ' := by
  induction doc using Doc.induction with
  | null => exact not_lt_space_of_all (by decide)
  | bool value =>
      cases value with
      | true => exact not_lt_space_of_all (by decide)
      | false => exact not_lt_space_of_all (by decide)
  | number number =>
      intro c hc
      exact not_lt_space_of_isNumberChar
        (List.all_eq_true.mp number.symbols c hc)
  | string units =>
      intro c hc
      exact not_lt_space_printString hc
  | array items ih =>
      intro c hc
      rw [print_array, List.mem_cons, List.mem_append,
        List.mem_singleton] at hc
      rcases hc with rfl | hitems | rfl
      · decide
      · rcases mem_commaSeparated hitems with rfl | ⟨text, htext, hmem⟩
        · decide
        · obtain ⟨item, hitem, rfl⟩ := List.mem_map.mp htext
          exact ih item hitem c hmem
      · decide
  | object members ih =>
      intro c hc
      rw [print_object, List.mem_cons, List.mem_append,
        List.mem_singleton] at hc
      rcases hc with rfl | hmembers | rfl
      · decide
      · rcases mem_commaSeparated hmembers with rfl | ⟨text, htext, hmem⟩
        · decide
        · obtain ⟨member, hmember, rfl⟩ := List.mem_map.mp htext
          simp only [printMember, List.mem_append, List.mem_cons] at hmem
          rcases hmem with hname | rfl | hvalue
          · exact not_lt_space_printString hname
          · decide
          · exact ih member hmember c hvalue
      · decide

end JsonText
