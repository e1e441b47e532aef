import Rendezvous.Text.Blank
import Rendezvous.Text.Numeral
import Rendezvous.Number.Reading
/-!
# Message trees

Everything that is sent is a tree of nodes. A node has a name that says what it carries, perhaps a
text as its value, and children in order. A field of a typed payload is the first child of a given
name; that a field is missing or cannot be read is a `DecodeError`, which names the field after the
node and the child.
-/

namespace Rendezvous

/-- A node of a message. -/
structure Node where
  name : String
  value : Option String := none
  children : List Node := []
deriving Inhabited, Repr

/-- Why a tree is not the encoding of a typed value. -/
inductive DecodeError
  | unexpectedNode (expected found : String)
  | missingField (field : String)
  | invalidValue (field value : String)
  | unknownVariant (kind value : String)
deriving DecidableEq, Inhabited, Repr

namespace DecodeError

/-- The name of the kind of error. -/
def name : DecodeError → String
  | unexpectedNode _ _ => "UnexpectedNode"
  | missingField _ => "MissingField"
  | invalidValue _ _ => "InvalidValue"
  | unknownVariant _ _ => "UnknownVariant"

/-- The error in words. -/
def message : DecodeError → String
  | unexpectedNode expected found =>
    "unexpected node: expected '" ++ expected ++ "', found '" ++ found ++ "'"
  | missingField field => "missing field: " ++ field
  | invalidValue field value => "invalid value for " ++ field ++ ": '" ++ value ++ "'"
  | unknownVariant kind value => "unknown " ++ kind ++ ": '" ++ value ++ "'"

end DecodeError

namespace Node

mutual

/-- Decides whether two trees are equal. -/
def decEq : (a b : Node) → Decidable (a = b)
  | ⟨n, v, cs⟩, ⟨n', v', cs'⟩ =>
    if hn : n = n' then
      if hv : v = v' then
        match decEqList cs cs' with
        | .isTrue hc => .isTrue (by rw [hn, hv, hc])
        | .isFalse hc => .isFalse fun h => hc (Node.mk.inj h).2.2
      else .isFalse fun h => hv (Node.mk.inj h).2.1
    else .isFalse fun h => hn (Node.mk.inj h).1

/-- Decides whether two lists of trees are equal. -/
def decEqList : (as bs : List Node) → Decidable (as = bs)
  | [], [] => .isTrue rfl
  | [], _ :: _ => .isFalse fun h => nomatch h
  | _ :: _, [] => .isFalse fun h => nomatch h
  | a :: as, b :: bs =>
    match decEq a b with
    | .isTrue hab =>
      match decEqList as bs with
      | .isTrue h => .isTrue (by rw [hab, h])
      | .isFalse h => .isFalse fun e => h (List.cons.inj e).2
    | .isFalse hab => .isFalse fun e => hab (List.cons.inj e).1

end

instance : DecidableEq Node := decEq

/-- A node that has nothing but a value. -/
def leaf (name value : String) : Node := { name, value := some value }

/-- A node that has nothing but children. -/
def branch (name : String) (children : List Node) : Node := { name, children }

/-- The first child of the given name. -/
def child? (n : Node) (name : String) : Option Node := n.children.find? fun c => c.name = name

/-- The children of the given name. -/
def childrenNamed (n : Node) (name : String) : List Node :=
  n.children.filter fun c => c.name = name

/-- The value of the first child of the given name. -/
def valueOf? (n : Node) (name : String) : Option String := (n.child? name).bind Node.value

/-- How errors name a field of a node. -/
def fieldName (n : Node) (name : String) : String := n.name ++ "." ++ name

/-- The first child of the given name, which must be there. -/
def requireChild (n : Node) (name : String) : Except DecodeError Node :=
  match n.child? name with
  | some c => .ok c
  | none => .error (.missingField (n.fieldName name))

/-- The value of the first child of the given name, which must be there. -/
def requireValue (n : Node) (name : String) : Except DecodeError String :=
  match n.valueOf? name with
  | some v => .ok v
  | none => .error (.missingField (n.fieldName name))

/-- Reads the value of a field that must be there, without the blanks around it. -/
def parse {α : Type} (n : Node) (name : String) (reader : String → Option α) :
    Except DecodeError α := do
  let raw ← n.requireValue name
  match reader (Text.trim raw) with
  | some a => .ok a
  | none => .error (.invalidValue (n.fieldName name) raw)

/-- Reads the value of a field that may be missing. -/
def parseOptional {α : Type} (n : Node) (name : String) (reader : String → Option α) :
    Except DecodeError (Option α) :=
  match n.valueOf? name with
  | some _ => (n.parse name reader).map some
  | none => .ok none

/-- Refuses a node of another name. -/
def expectName (n : Node) (expected : String) : Except DecodeError Unit :=
  if n.name = expected then .ok () else .error (.unexpectedNode expected n.name)

end Node

end Rendezvous
