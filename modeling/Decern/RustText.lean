import Mathlib.Data.List.TakeWhile
import Mathlib.Tactic

/-!
# Text operations of the Rust standard library

Trimming, control characters and character-bounded echoes, over Lean strings.
-/

namespace RustText

/-- The Unicode `White_Space` property. -/
def isWhitespace (c : Char) : Bool :=
  (9 ≤ c.toNat && c.toNat ≤ 13) || c.toNat == 0x20 || c.toNat == 0x85 ||
    c.toNat == 0xA0 || c.toNat == 0x1680 ||
    (0x2000 ≤ c.toNat && c.toNat ≤ 0x200A) || c.toNat == 0x2028 ||
    c.toNat == 0x2029 || c.toNat == 0x202F || c.toNat == 0x205F ||
    c.toNat == 0x3000

/-- The Unicode general category `Cc`. -/
def isControl (c : Char) : Bool :=
  c.toNat < 0x20 || (0x7F ≤ c.toNat && c.toNat ≤ 0x9F)

def trimChars (text : List Char) : List Char :=
  ((text.dropWhile isWhitespace).reverse.dropWhile isWhitespace).reverse

def trim (text : String) : String :=
  String.ofList (trimChars text.toList)

/-- `text.trim().is_empty()`. -/
def isBlank (text : String) : Bool :=
  (trimChars text.toList).isEmpty

/-- The text without control characters, cut after `count` characters with an
ellipsis. -/
def bounded (text : String) (count : ℕ) : String :=
  let kept := text.toList.filter fun c => !isControl c
  if kept.length > count then String.ofList (kept.take count ++ ['…'])
  else String.ofList kept

/-- A text is blank exactly when it holds nothing but white space. -/
theorem isBlank_iff (text : String) :
    isBlank text = true ↔ ∀ c ∈ text.toList, isWhitespace c = true := by
  simp only [isBlank, trimChars, List.isEmpty_iff, List.reverse_eq_nil_iff,
    List.dropWhile_eq_nil_iff, List.mem_reverse]
  constructor
  · intro hrest c hc
    rw [← List.takeWhile_append_dropWhile (p := isWhitespace)
      (l := text.toList), List.mem_append] at hc
    rcases hc with hfront | hback
    · exact List.all_eq_true.mp List.all_takeWhile c hfront
    · exact hrest c hback
  · intro hall c hc
    exact hall c (List.dropWhile_subset isWhitespace hc)

theorem isBlank_eq_false {text : String} {c : Char} (hmem : c ∈ text.toList)
    (hc : isWhitespace c = false) : isBlank text = false := by
  by_contra hblank
  have hall := (isBlank_iff text).mp (by simpa using hblank)
  rw [hall c hmem] at hc
  cases hc

end RustText
