import Rendezvous.Message.Node
import Rendezvous.Number.Shortest
/-!
# Attribute values

A value is a text, an integer of 64 bits, a double or a truth value. In messages it is a text that
is read by the declared kind of the attribute.
-/

namespace Rendezvous

/-- The kinds of values. -/
inductive ValueKind
  | string
  | integer
  | float
  | boolean
deriving DecidableEq, Inhabited, Repr

namespace ValueKind

/-- The word for a kind. -/
def name : ValueKind → String
  | string => "string"
  | integer => "integer"
  | float => "float"
  | boolean => "boolean"

/-- Reads a kind; numbers have more than one word, and letters may be of either case. -/
def ofText (raw : String) : Except DecodeError ValueKind :=
  let word := Text.lowerAscii (Text.trim raw)
  if word = "string" then .ok string
  else if word = "integer" ∨ word = "int" ∨ word = "long" ∨ word = "short" then .ok integer
  else if word = "float" ∨ word = "double" then .ok float
  else if word = "boolean" ∨ word = "bool" then .ok boolean
  else .error (.unknownVariant "attribute type" word)

/-- Whether values of this kind are numbers. -/
def isNumeric : ValueKind → Bool
  | integer | float => true
  | _ => false

end ValueKind

/-- A value of one of the kinds. -/
inductive Value
  | string (s : String)
  | integer (i : Int64)
  | float (x : Binary64)
  | boolean (b : Bool)
deriving DecidableEq, Inhabited

namespace Value

/-- The kind of a value. -/
def kind : Value → ValueKind
  | string _ => .string
  | integer _ => .integer
  | float _ => .float
  | boolean _ => .boolean

/-- A value as messages carry it. -/
def text : Value → String
  | string s => s
  | integer i => Text.ofInt i.toInt
  | float x => x.plainText
  | boolean b => Text.ofBool b

/-- Reads a value of a known kind. All kinds but texts may have blanks around them. -/
def ofText (kind : ValueKind) (raw : String) : Except DecodeError Value :=
  let word := Text.trim raw
  let value? := match kind with
    | .string => some (string raw)
    | .integer => (Text.integer? word).map integer
    | .float => (Binary64.ofText? word).map float
    | .boolean => (Text.truth? word).map boolean
  match value? with
  | some v => .ok v
  | none => .error (.invalidValue (kind.name ++ " value") raw)

/-- The double nearest to a number. -/
def asFloat? : Value → Option Binary64
  | integer i => some (Binary64.ofInt i.toInt)
  | float x => some x
  | _ => none

/-- The text that a value is. -/
def asString? : Value → Option String
  | string s => some s
  | _ => none

end Value

end Rendezvous
