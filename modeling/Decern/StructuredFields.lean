import Decern.ByteText
import Mathlib.Tactic

/-!
# Structured fields

The values of HTTP structured fields, with their maps as lists of entries in
order.  The parser and the serializer are the caller's.
-/

namespace Sfv

inductive Version where
  | rfc8941
  | rfc9651
  deriving DecidableEq, Repr

/-- A decimal has three places. -/
inductive BareItem where
  | decimal (thousandths : ℤ)
  | integer (value : ℤ)
  | string (value : String)
  | byteSequence (bytes : ByteText.Bytes)
  | boolean (value : Bool)
  | token (value : String)
  | date (seconds : ℤ)
  | displayString (value : String)
  deriving DecidableEq, Repr

abbrev Params := List (String × BareItem)

structure Item where
  bareItem : BareItem
  params : Params
  deriving DecidableEq, Repr

structure InnerList where
  items : List Item
  params : Params
  deriving DecidableEq, Repr

inductive ListEntry where
  | item (value : Item)
  | innerList (list : InnerList)
  deriving DecidableEq, Repr

abbrev Dictionary := List (String × ListEntry)

/-- A parser of dictionaries, the keys it visits on the way with their
repeats, and a serializer of a list of one inner list. -/
structure Codec where
  keys : Version → String → Option (List String)
  parse : Version → String → Option Dictionary
  serialize : InnerList → Option String

end Sfv
