import Decern.HexText
import Mathlib.Tactic

/-!
# JSON text

A syntax tree for JSON text, its compact printing, and a parser over
characters that accepts insignificant whitespace.  String escapes are kept as
code units, so that text whose escapes leave a surrogate unpaired still has a
tree; number lexemes are kept as written.
-/

namespace JsonText

/-! ## The tree -/

/-- One unit of a string: a scalar value, or a surrogate left by an escape. -/
inductive StringUnit where
  | scalar (value : Char)
  | surrogate (value : {n : ℕ // 0xD800 ≤ n ∧ n ≤ 0xDFFF})
  deriving DecidableEq, Repr

def isNumberChar (c : Char) : Bool :=
  c.isDigit || c == '-' || c == '+' || c == '.' || c == 'e' || c == 'E'

def exponentDigits (text : List Char) : Bool :=
  !text.isEmpty && text.all Char.isDigit

def dropExponentSign : List Char → List Char
  | [] => []
  | c :: rest => if c = '+' ∨ c = '-' then rest else c :: rest

def exponentPart : List Char → Bool
  | [] => true
  | c :: rest =>
      (c == 'e' || c == 'E') && exponentDigits (dropExponentSign rest)

def fractionPart : List Char → Bool
  | [] => true
  | c :: rest =>
      if c = '.' then
        !(rest.takeWhile Char.isDigit).isEmpty &&
          exponentPart (rest.dropWhile Char.isDigit)
      else exponentPart (c :: rest)

def integerPart : List Char → Bool
  | [] => false
  | c :: rest =>
      if c = '0' then fractionPart rest
      else c.isDigit && fractionPart (rest.dropWhile Char.isDigit)

/-- The number grammar. -/
def isNumber : List Char → Bool
  | [] => false
  | c :: rest =>
      if c = '-' then integerPart rest else integerPart (c :: rest)

/-- A number as it is written. -/
structure NumberText where
  chars : List Char
  symbols : chars.all isNumberChar = true
  grammar : isNumber chars = true
  deriving DecidableEq, Repr

inductive Doc where
  | null
  | bool (value : Bool)
  | number (text : NumberText)
  | string (units : List StringUnit)
  | array (items : List Doc)
  | object (members : List (List StringUnit × Doc))
  deriving Repr

namespace Doc

mutual

/-- How many arrays and objects deep a tree nests. -/
def nesting : Doc → ℕ
  | .array items => 1 + nestingItems items
  | .object members => 1 + nestingMembers members
  | _ => 0

def nestingItems : List Doc → ℕ
  | [] => 0
  | item :: rest => max item.nesting (nestingItems rest)

def nestingMembers : List (List StringUnit × Doc) → ℕ
  | [] => 0
  | (_, value) :: rest => max value.nesting (nestingMembers rest)

end

end Doc

/-! ## String units -/

def ofString (text : String) : List StringUnit :=
  text.toList.map .scalar

/-- The scalar values string units denote; a surrogate counts only in a
pair. -/
def scalars : List StringUnit → Option (List Char)
  | [] => some []
  | .scalar c :: rest => (scalars rest).map (c :: ·)
  | .surrogate high :: .surrogate low :: rest =>
      if high.val < 0xDC00 ∧ 0xDC00 ≤ low.val then
        (scalars rest).map
          (Char.ofNat (0x10000 + (high.val - 0xD800) * 0x400 +
            (low.val - 0xDC00)) :: ·)
      else none
  | .surrogate _ :: _ => none

def text (units : List StringUnit) : Option String :=
  (scalars units).map String.ofList

@[simp] theorem text_ofString (value : String) :
    text (ofString value) = some value := by
  have hscalars : ∀ chars : List Char,
      scalars (chars.map .scalar) = some chars := by
    intro chars
    induction chars with
    | nil => rfl
    | cons c rest ih => simp [scalars, ih]
  simp [text, ofString, hscalars]

/-- The unit an escaped code unit stands for. -/
def unitOfCode (value : ℕ) : StringUnit :=
  if h : 0xD800 ≤ value ∧ value ≤ 0xDFFF then .surrogate ⟨value, h⟩
  else .scalar (Char.ofNat value)

/-! ## Printing -/

def printUnit : StringUnit → List Char
  | .scalar c =>
      if c = '"' then ['\\', '"']
      else if c = '\\' then ['\\', '\\']
      else if c = Char.ofNat 8 then ['\\', 'b']
      else if c = Char.ofNat 12 then ['\\', 'f']
      else if c = '\n' then ['\\', 'n']
      else if c = '\r' then ['\\', 'r']
      else if c = '\t' then ['\\', 't']
      else if c < ' ' then '\\' :: 'u' :: HexText.unitDigits c.toNat
      else [c]
  | .surrogate value => '\\' :: 'u' :: HexText.unitDigits value

def printString (units : List StringUnit) : List Char :=
  '"' :: (units.flatMap printUnit ++ ['"'])

def commaSeparated : List (List Char) → List Char
  | [] => []
  | [text] => text
  | text :: others => text ++ ',' :: commaSeparated others

mutual

def print : Doc → List Char
  | .null => ['n', 'u', 'l', 'l']
  | .bool true => ['t', 'r', 'u', 'e']
  | .bool false => ['f', 'a', 'l', 's', 'e']
  | .number text => text.chars
  | .string units => printString units
  | .array items => '[' :: (commaSeparated (printItems items) ++ [']'])
  | .object members => '{' :: (commaSeparated (printMembers members) ++ ['}'])

def printItems : List Doc → List (List Char)
  | [] => []
  | item :: rest => print item :: printItems rest

def printMembers : List (List StringUnit × Doc) → List (List Char)
  | [] => []
  | (name, value) :: rest =>
      (printString name ++ ':' :: print value) :: printMembers rest

end

/-! ## Parsing -/

def isSpace (c : Char) : Bool :=
  c == ' ' || c == '\n' || c == '\t' || c == '\r'

def skipSpace (input : List Char) : List Char :=
  input.dropWhile isSpace

/-- The character a one-letter escape stands for. -/
def plainEscape (c : Char) : Option Char :=
  if c = '"' then some '"'
  else if c = '\\' then some '\\'
  else if c = '/' then some '/'
  else if c = 'b' then some (Char.ofNat 8)
  else if c = 'f' then some (Char.ofNat 12)
  else if c = 'n' then some '\n'
  else if c = 'r' then some '\r'
  else if c = 't' then some '\t'
  else none

def pushUnit (unit : StringUnit)
    (result : List StringUnit × List Char) : List StringUnit × List Char :=
  (unit :: result.1, result.2)

/-- The units of a string up to its closing quote, and what follows it. -/
def readUnits : List Char → Option (List StringUnit × List Char)
  | [] => none
  | c :: rest =>
      if c = '"' then some ([], rest)
      else if c = '\\' then
        match rest with
        | [] => none
        | escape :: rest =>
            if escape = 'u' then
              match rest with
              | a :: b :: c :: d :: rest =>
                  (HexText.unitValue a b c d).bind fun value =>
                    (readUnits rest).map (pushUnit (unitOfCode value))
              | _ => none
            else
              (plainEscape escape).bind fun plain =>
                (readUnits rest).map (pushUnit (.scalar plain))
      else if c < ' ' then none
      else (readUnits rest).map (pushUnit (.scalar c))

def readNumber (input : List Char) : Option (Doc × List Char) :=
  let chars := input.takeWhile isNumberChar
  if h : isNumber chars = true then
    some (.number ⟨chars, List.all_takeWhile, h⟩,
      input.dropWhile isNumberChar)
  else none

def readWord (word : List Char) (result : Doc) (input : List Char) :
    Option (Doc × List Char) :=
  if word <+: input then some (result, input.drop word.length) else none

section Lists

variable {α : Type} (element : List Char → Option (α × List Char))
  (close : Char)

/-- Elements separated by commas up to the closing bracket; the first
argument bounds how many there may be. -/
def readList : ℕ → List Char → Option (List α × List Char)
  | 0, _ => none
  | fuel + 1, input =>
      (element input).bind fun (first, rest) =>
        match skipSpace rest with
        | [] => none
        | c :: rest =>
            if c = ',' then
              (readList fuel rest).map fun (others, rest) =>
                (first :: others, rest)
            else if c = close then some ([first], rest)
            else none

/-- What stands between brackets, after the opening one. -/
def readBracketed (fuel : ℕ) (input : List Char) :
    Option (List α × List Char) :=
  match skipSpace input with
  | [] => none
  | c :: rest =>
      if c = close then some ([], rest)
      else readList element close fuel (c :: rest)

/-- One member of an object. -/
def readMember (input : List Char) :
    Option ((List StringUnit × α) × List Char) :=
  match skipSpace input with
  | [] => none
  | c :: rest =>
      if c = '"' then
        (readUnits rest).bind fun (name, rest) =>
          match skipSpace rest with
          | [] => none
          | c :: rest =>
              if c = ':' then
                (element rest).map fun (value, rest) => ((name, value), rest)
              else none
      else none

end Lists

/-- One value and the text after it; the first argument bounds the nesting
and the number of elements. -/
def readDoc : ℕ → List Char → Option (Doc × List Char)
  | 0, _ => none
  | fuel + 1, input =>
      match skipSpace input with
      | [] => none
      | c :: rest =>
          if c = '"' then
            (readUnits rest).map fun (units, rest) => (.string units, rest)
          else if c = '[' then
            (readBracketed (readDoc fuel) ']' fuel rest).map
              fun (items, rest) => (.array items, rest)
          else if c = '{' then
            (readBracketed (readMember (readDoc fuel)) '}' fuel rest).map
              fun (members, rest) => (.object members, rest)
          else if c = 'n' then readWord ['u', 'l', 'l'] .null rest
          else if c = 't' then readWord ['r', 'u', 'e'] (.bool true) rest
          else if c = 'f' then
            readWord ['a', 'l', 's', 'e'] (.bool false) rest
          else readNumber (c :: rest)

/-! ## The members of a whole text -/

/-- A tree together with the text it was read from. -/
structure Spanned where
  doc : Doc
  raw : List Char
  deriving Repr

/-- A whole text, with the text of each top-level item or member kept. -/
inductive Outline where
  | leaf (doc : Doc)
  | array (items : List Spanned)
  | object (members : List (List StringUnit × Spanned))
  deriving Repr

def Outline.doc : Outline → Doc
  | .leaf doc => doc
  | .array items => .array (items.map Spanned.doc)
  | .object members =>
      .object (members.map fun member => (member.1, member.2.doc))

def readSpanned (fuel : ℕ) (input : List Char) :
    Option (Spanned × List Char) :=
  let start := skipSpace input
  (readDoc fuel start).map fun (doc, rest) =>
    (⟨doc, start.take (start.length - rest.length)⟩, rest)

def readOutlineStart (fuel : ℕ) (input : List Char) :
    Option (Outline × List Char) :=
  match skipSpace input with
  | [] => none
  | c :: rest =>
      if c = '[' then
        (readBracketed (readSpanned fuel) ']' fuel rest).map
          fun (items, rest) => (.array items, rest)
      else if c = '{' then
        (readBracketed (readMember (readSpanned fuel)) '}' fuel rest).map
          fun (members, rest) => (.object members, rest)
      else
        (readDoc (fuel + 1) (c :: rest)).map
          fun (doc, rest) => (.leaf doc, rest)

/-- Read a text that holds one value and nothing else. -/
def readOutline (text : List Char) : Option Outline :=
  (readOutlineStart text.length text).bind fun (outline, rest) =>
    if skipSpace rest = [] then some outline else none

def parse (text : List Char) : Option Doc :=
  (readOutline text).map Outline.doc

end JsonText
