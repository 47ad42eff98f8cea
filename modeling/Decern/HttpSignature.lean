import Decern.SeparatedFields
import Decern.StructuredFields
import Mathlib.Tactic

/-!
# HTTP message signatures

The one signature a request presents, the values of the components it covers,
and the base that is signed.
-/

namespace Decern

/-! ## Refusals -/

/-- Why a request was refused. -/
inductive Denied where
  | noCredentials
  | invalid (reason : String)
  | insufficientScope (scopes : String)
  deriving DecidableEq, Repr

def maxEcho : ℕ := 64

/-- A caller's text as a refusal echoes it. -/
def printable (s : String) : String :=
  String.ofList
    ((s.toList.filter fun c => decide (' ' ≤ c ∧ c ≤ '~')).take maxEcho)

namespace HttpSig

open Sfv (BareItem Codec Dictionary InnerList Item ListEntry Params)

/-! ## Names -/

def derivedNames : List String := ["@method", "@authority", "@path"]

def tokenSymbols : List Char := "!#$%&'*+-.^_`|~".toList

def tokenChar (c : Char) : Bool :=
  c.isLower || c.isDigit || tokenSymbols.contains c

def validComponentName (name : String) : Bool :=
  if name.toList.head? = some '@' then derivedNames.contains name
  else !name.toList.isEmpty && name.toList.all tokenChar

/-! ## Presented signatures -/

structure Presented where
  label : String
  components : List String
  created : ℤ
  expires : Option ℤ
  params : String
  signature : ByteText.Bytes
  deriving DecidableEq, Repr

structure Profile where
  label : Option String
  ignoreAlg : Bool
  acceptExpires : Bool
  deriving DecidableEq, Repr

/-- The first label that was seen before. -/
def firstRepeat (seen : List String) : List String → Option String
  | [] => none
  | label :: rest =>
      if label ∈ seen then some label else firstRepeat (label :: seen) rest

variable (S : Codec)

def dictionary (raw what : String) : Except Denied Dictionary :=
  let malformed : Denied :=
    .invalid s!"{what} is not a structured-field dictionary"
  match S.keys .rfc8941 raw with
  | none => .error malformed
  | some labels =>
      match firstRepeat [] labels with
      | some label =>
          .error (.invalid
            s!"{what} names the label {printable label} more than once")
      | none =>
          match S.parse .rfc8941 raw with
          | none => .error malformed
          | some members => .ok members

def dictionary9651 (raw what : String) : Except Denied Dictionary :=
  match S.parse .rfc9651 raw with
  | none => .error (.invalid s!"{what} is not a structured-field dictionary")
  | some members => .ok members

/-- What each of the two headers must hold under a label of the profile's. -/
def oneLabelled (label what : String) (members : Dictionary) :
    Except Denied Unit :=
  if members.length ≠ 1 ∨ (members.lookup label).isNone then
    .error (.invalid
      s!"{what} must carry exactly one signature, labelled {label}")
  else .ok ()

def oneSignature (what : String) (members : Dictionary) :
    Except Denied Unit :=
  if members.length ≠ 1 then
    .error (.invalid s!"{what} must carry exactly one signature")
  else .ok ()

def chosenLabel (profile : Profile) (inputs signatures : Dictionary) :
    Except Denied String :=
  match profile.label with
  | some label => do
      oneLabelled label "Signature-Input" inputs
      oneLabelled label "Signature" signatures
      .ok label
  | none => do
      oneSignature "Signature-Input" inputs
      oneSignature "Signature" signatures
      match inputs.head?, signatures.head? with
      | some (inputLabel, _), some (signatureLabel, _) =>
          if inputLabel ≠ signatureLabel then
            .error (.invalid
              "Signature-Input and Signature name different labels")
          else .ok inputLabel
      | _, _ =>
          .error (.invalid "the signature headers carry no signature")

def inputList (label : String) (inputs : Dictionary) :
    Except Denied InnerList :=
  match inputs.lookup label with
  | some (.innerList list) => .ok list
  | _ => .error (.invalid "Signature-Input member is not an inner list")

/-- The component an item names, after those in `components`. -/
def componentName (components : List String) (item : Item) :
    Except Denied String :=
  match item.bareItem with
  | .string name =>
      if !item.params.isEmpty then
        .error (.invalid (s!"covered component {printable name} carries " ++
          "a parameter this verifier does not implement"))
      else if !validComponentName name then
        .error (.invalid
          s!"{printable name} is not a component this verifier can derive")
      else if components.contains name then
        .error (.invalid
          s!"covered component {printable name} is listed twice")
      else .ok name
  | _ => .error (.invalid "a covered component is not a string")

def coveredComponents (components : List String) :
    List Item → Except Denied (List String)
  | [] => .ok components
  | item :: rest => do
      let name ← componentName components item
      coveredComponents (components ++ [name]) rest

/-- What the parameters read so far say. -/
structure Times where
  created : Option ℤ
  expires : Option ℤ
  deriving DecidableEq, Repr

def readParam (profile : Profile) (times : Times) (key : String)
    (value : BareItem) : Except Denied Times :=
  if key = "created" then
    match value with
    | .integer i => .ok { times with created := some i }
    | _ => .error (.invalid "Signature-Input created is not an integer")
  else if key = "keyid" then
    match value with
    | .string _ => .ok times
    | _ => .error (.invalid "Signature-Input keyid is not a string")
  else if key = "alg" ∧ profile.ignoreAlg = true then .ok times
  else if key = "expires" ∧ profile.acceptExpires = true then
    match value with
    | .integer i => .ok { times with expires := some i }
    | _ => .error (.invalid "Signature-Input expires is not an integer")
  else
    .error (.invalid
      s!"Signature-Input names an unsupported parameter {key}")

def readParams (profile : Profile) (times : Times) :
    Params → Except Denied Times
  | [] => .ok times
  | (key, value) :: rest => do
      let times ← readParam profile times key value
      readParams profile times rest

def signatureBytes (label : String) (signatures : Dictionary) :
    Except Denied ByteText.Bytes :=
  match signatures.lookup label with
  | some (.item item) =>
      match item.bareItem with
      | .byteSequence bytes =>
          if !item.params.isEmpty then
            .error (.invalid "Signature carries a parameter")
          else .ok bytes
      | _ => .error (.invalid "Signature is not a byte sequence")
  | _ => .error (.invalid "Signature member is not an item")

def presentedUnder (profile : Profile) (input signature : String) :
    Except Denied Presented := do
  let inputs ← dictionary S input "Signature-Input"
  let signatures ← dictionary S signature "Signature"
  let label ← chosenLabel profile inputs signatures
  let list ← inputList label inputs
  let components ← coveredComponents [] list.items
  let times ← readParams profile { created := none, expires := none }
    list.params
  match times.created with
  | none => .error (.invalid "Signature-Input carries no created")
  | some created =>
      match S.serialize list with
      | none => .error (.invalid "Signature-Input does not serialize")
      | some params => do
          let bytes ← signatureBytes label signatures
          .ok { label, components, created, expires := times.expires, params,
                signature := bytes }

/-- The strictest profile. -/
def presented (label input signature : String) : Except Denied Presented :=
  presentedUnder S
    { label := some label, ignoreAlg := false, acceptExpires := false }
    input signature

/-! ## The base -/

/-- What a component's value is drawn from; fields have lowercase names. -/
structure Message where
  method : String
  authority : String
  path : String
  fields : List (String × String)
  deriving DecidableEq, Repr

def signable (value : String) : Bool :=
  !value.toList.contains '\n' &&
    value.toList.all fun c => decide (c.toNat < 128)

def Message.draw (m : Message) (name : String) : Except Denied String :=
  if name = "@method" then .ok m.method
  else if name = "@authority" then .ok m.authority
  else if name = "@path" then .ok m.path
  else if name.toList.head? = some '@' then
    .error (.invalid s!"derived component {name} is not available here")
  else
    match m.fields.lookup name with
    | some value => .ok value
    | none =>
        .error (.invalid s!"covered field {name} is not in the request")

def Message.value (m : Message) (name : String) : Except Denied String := do
  let value ← m.draw name
  if signable value then .ok value
  else
    .error (.invalid
      s!"component {name} has a value that cannot be signed")

/-- The lines of the components, after `base`. -/
def pushComponents (m : Message) (base : String) :
    List String → Except Denied String
  | [] => .ok base
  | name :: rest => do
      let value ← m.value name
      pushComponents m (base ++ "\"" ++ name ++ "\": " ++ value ++ "\n") rest

def signatureBase (m : Message) (presented : Presented) :
    Except Denied String := do
  let base ← pushComponents m "" presented.components
  .ok (base ++ "\"@signature-params\": " ++ presented.params)

end HttpSig

end Decern
