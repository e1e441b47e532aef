import Rendezvous.Json.Reader
/-!
# Typed values in JSON

A `Json.Decoder` makes a typed value of a JSON value, or none if the value is not of its shape. The
number it is given says how many levels of arrays and objects may be open below: `Json.decodeText?`
allows `Json.maxDepth`. Values that no decoder asks for may be as deep as they like.

A structure is an object with a member for each field, where others are passed over, or an array of
the fields in order (`Json.record?`). An enumeration is the name of a variant, or an object with one
member named for the variant (`Json.variant?`).
-/

namespace Rendezvous.Json

/-- Reads a typed value, given how deep it may nest. -/
abbrev Decoder (α : Type) := Nat → Json → Option α

/-- How many arrays and objects may be open at once in a text. -/
def maxDepth : Nat := 127

/-- Reads a text as a typed value. -/
def decodeText? {α : Type} (decoder : Decoder α) (s : String) : Option α :=
  (ofText? s).bind (decoder maxDepth)

/-- Reads a text, some characters of which may be broken, as a typed value. -/
def decode? {α : Type} (decoder : Decoder α) (cs : List (Option Char)) : Option α :=
  (read cs).bind (decoder maxDepth)

/-! ## Values without parts -/

/-- Reads a string. -/
def asString : Decoder String
  | _, .string s => some s
  | _, _ => none

/-- Reads a truth value. -/
def asBool : Decoder Bool
  | _, .bool b => some b
  | _, _ => none

/-- Reads a whole number that is less than `bound`. -/
def asNatural (bound : Nat) : Decoder Nat
  | _, .integer i => if 0 ≤ i ∧ i < bound then some i.toNat else none
  | _, _ => none

/-- Reads a whole number that fits a signed word of 64 bits. -/
def asInt64 : Decoder Int64
  | _, .integer i => if Text.FitsInt64 i then some (Int64.ofInt i) else none
  | _, _ => none

/-- Reads any number as a double. -/
def asBinary64 : Decoder Binary64
  | _, .integer i => some (Binary64.ofInt i)
  | _, .real x => some x
  | _, _ => none

/-- Reads a value that may be `null` instead. -/
def asOption {α : Type} (decoder : Decoder α) : Decoder (Option α)
  | _, .null => some none
  | depth, v => (decoder depth v).map some

/-- How settings are read, down to their values without parts. A settings file is read by more
generous rules than other stored settings, to the same types. -/
structure Leaves where
  text : Decoder String
  /-- A whole number less than the bound. -/
  natural : Nat → Decoder Nat
  flag : Decoder Bool
  /-- Whether an array may have more items than the structure that it stands for has fields. -/
  surplus : Bool

/-- Every value is of the kind that it is asked for. -/
def exactLeaves : Leaves := ⟨asString, asNatural, asBool, false⟩

/-! ## Values with parts -/

/-- Reads an array of values of one type. -/
def asList {α : Type} (decoder : Decoder α) : Decoder (List α)
  | depth + 1, .array items => items.mapM (decoder depth)
  | _, _ => none

/-- Reads an object whose values have one type. -/
def asMembers {α : Type} (decoder : Decoder α) : Decoder (List (String × α))
  | depth + 1, .object members => members.mapM fun m => (decoder depth m.2).map (m.1, ·)
  | _, _ => none

/-- The fields of a structure as far as they are given. -/
structure Record where
  /-- How deep a field may nest. -/
  depth : Nat
  /-- Whether the fields are those of an array. -/
  positional : Bool
  fields : List (String × Json)

/-- Reads a structure with the given field names. An object may not give a field twice, an array may
not be longer than there are fields. -/
def record? (names : List String) : Decoder Record
  | depth + 1, .object members =>
    let known := members.filter fun m => names.contains m.1
    if (known.map Prod.fst).Nodup then some ⟨depth, false, known⟩ else none
  | depth + 1, .array items =>
    if items.length ≤ names.length then some ⟨depth, true, names.zip items⟩ else none
  | _, _ => none

/-- Reads a structure by the given rules; items of an array that are in surplus are passed over
where they may be. -/
def Leaves.record? (leaves : Leaves) (names : List String) : Decoder Record
  | depth, .array items =>
    Json.record? names depth (.array (if leaves.surplus then items.take names.length else items))
  | depth, v => Json.record? names depth v

namespace Record

/-- The value of a field. -/
def find? (r : Record) (name : String) : Option Json :=
  (r.fields.find? fun f => f.1 = name).map Prod.snd

/-- Reads a field that must be there. -/
def required {α : Type} (r : Record) (name : String) (decoder : Decoder α) : Option α :=
  (r.find? name).bind (decoder r.depth)

/-- Reads a field that has a default. -/
def defaulted {α : Type} (r : Record) (name : String) (default : α) (decoder : Decoder α) :
    Option α :=
  match r.find? name with
  | some v => decoder r.depth v
  | none => some default

/-- Reads a field that may be `null`, and may be left out of an object. -/
def nullable {α : Type} (r : Record) (name : String) (decoder : Decoder α) : Option (Option α) :=
  match r.find? name with
  | some v => asOption decoder r.depth v
  | none => if r.positional then none else some none

end Record

/-- A variant of an enumeration and the value it comes with, which may nest as deep as `depth`. -/
structure Variant where
  name : String
  payload : Option Json
  depth : Nat

/-- Reads a variant of an enumeration. -/
def variant? : Decoder Variant
  | depth, .string name => some ⟨name, none, depth⟩
  | depth + 1, .object [(name, payload)] => some ⟨name, some payload, depth⟩
  | _, _ => none

namespace Variant

/-- Whether the variant comes without a value. -/
def isUnit (v : Variant) : Bool :=
  match v.payload with
  | none | some .null => true
  | _ => false

/-- Reads the value that the variant comes with. -/
def value? {α : Type} (v : Variant) (decoder : Decoder α) : Option α :=
  v.payload.bind (decoder v.depth)

end Variant

/-- Reads one of some words, as the name of a variant that comes without a value. -/
def asWord {α : Type} (words : List (String × α)) : Decoder α := fun depth j => do
  let v ← variant? depth j
  if v.isUnit then (words.find? fun w => w.1 = v.name).map Prod.snd else none

/-- A variant together with its value. -/
def tagged (name : String) (value : Json) : Json := .object [(name, value)]

end Rendezvous.Json
