import Decern.AgentBadge
import Decern.PostgresTables
import Mathlib.Tactic

/-!
# The key spans of a head row

A head row keeps its cursor's key spans as the JSON text of the struct.  What
is written is read back.
-/

namespace Decern.Postgres

open JsonText (Doc)
open Serde (SerdeError Source docSource expectStruct present readString
  readVec required stringDoc structDoc)

/-! ## Writing -/

def spanDoc (span : KeySpan) : Doc :=
  structDoc [("kid", stringDoc span.kid),
    ("first_seq", Doc.number (Serde.naturalText span.firstSeq))]

def signersDoc (signers : ShardSigners) : Doc :=
  structDoc [("through", Doc.number (Serde.naturalText signers.through)),
    ("spans", Doc.array (signers.spans.map spanDoc))]

/-! ## Reading -/

section Readers

variable {δ : Type} (source : Source δ)

def readKeySpan (tree : δ) : Except SerdeError KeySpan := do
  let shape := source.shape tree
  expectStruct 2 shape
  let kid ← required shape 0 "kid" (readString source)
  let firstSeq ← required shape 1 "first_seq" (Serde.readNatural source)
  return { kid, firstSeq }

def readShardSigners (tree : δ) : Except SerdeError ShardSigners := do
  let shape := source.shape tree
  expectStruct 2 shape
  let through ← required shape 0 "through" (Serde.readNatural source)
  let spans ← required shape 1 "spans" (readVec source (readKeySpan source))
  return { through, spans }

end Readers

variable (P : Platform)

/-- The text of a head row's spans, and what is read of it. -/
def signersText : SignersText where
  write := fun signers => .ok (String.ofList (JsonText.print
    (signersDoc signers)))
  read := fun json =>
    match JsonText.parse json.toList with
    | none => .error (P.serdeMessage .unreadable)
    | some doc => (readShardSigners (docSource P.floats) doc).mapError
        P.serdeMessage

/-! ## What is written is read back -/

theorem readKeySpan_spanDoc (span : KeySpan) :
    readKeySpan (docSource P.floats) (spanDoc span) = .ok span := by
  have hkid := Serde.readString_stringDoc P.floats span.kid
  have hfirst := Serde.readNatural_naturalText P.floats span.firstSeq
  simp [readKeySpan, spanDoc, expectStruct, required, Serde.field,
    Serde.member, present, hkid, hfirst, bind, Except.bind, pure, Except.pure]

theorem readShardSigners_signersDoc (signers : ShardSigners) :
    readShardSigners (docSource P.floats) (signersDoc signers) =
      .ok signers := by
  have hthrough := Serde.readNatural_naturalText P.floats signers.through
  have hspans := Identity.readVec_map P.floats (readKeySpan_spanDoc P)
    signers.spans
  simp [readShardSigners, signersDoc, expectStruct, required, Serde.field,
    Serde.member, present, hthrough, hspans, bind, Except.bind, pure,
    Except.pure]

/-- A written row is read as the cursor it was written of. -/
theorem cursorOf_headRow {cursor : HeadCursor} {row : HeadRow}
    (hrow : Tables.headRow (signersText P) cursor = .ok row) :
    Tables.cursorOf (signersText P) row = .ok cursor := by
  rcases cursor with ⟨nextSeq, lastHash, signers⟩
  have hback : ∀ signers, (signersText P).read
      (String.ofList (JsonText.print (signersDoc signers))) =
        .ok signers := by
    intro signers
    simp only [signersText, String.toList_ofList, JsonText.parse_print,
      readShardSigners_signersDoc]
    rfl
  have hnumber : fromI64 (nextSeq : ℤ) = .ok nextSeq := by
    simp [fromI64]
  unfold Tables.headRow toI64 at hrow
  by_cases hlimit : nextSeq < 9223372036854775808
  · cases signers with
    | none =>
        simp only [hlimit, if_true] at hrow
        cases hrow
        simp only [Tables.cursorOf, hnumber]
        rfl
    | some signers =>
        simp only [hlimit, if_true] at hrow
        cases hrow
        simp only [Tables.cursorOf, hnumber, hback]
        rfl
  · cases signers with
    | none =>
        simp only [hlimit, if_false] at hrow
        cases hrow
    | some signers =>
        simp only [hlimit, if_false] at hrow
        cases hrow

end Decern.Postgres
