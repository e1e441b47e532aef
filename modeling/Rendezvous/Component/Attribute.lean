import Rendezvous.Collection.SortedMap
import Rendezvous.Component.Value
/-!
# Attributes

An attribute is declared with a name and a kind, and may have a value. A component has each name
once, and lists its attributes by name; `Attributes.merge` and `Attributes.replace` are the two ways
in which an update applies.
-/

namespace Rendezvous

/-- A named attribute. -/
structure Attribute where
  name : String
  kind : ValueKind
  value : Option Value
deriving DecidableEq, Inhabited

namespace Attribute

/-- An attribute with a value, whose kind is that of the value. -/
def valued (name : String) (value : Value) : Attribute := ⟨name, value.kind, some value⟩

/-- An attribute without a value. -/
def declared (name : String) (kind : ValueKind) : Attribute := ⟨name, kind, none⟩

/-- The name of the nodes that carry attributes. -/
def tag : String := "attribute"

/-- The attribute as a node. -/
def toNode (a : Attribute) : Node :=
  let value := match a.value with
    | some v => [Node.leaf "value" v.text]
    | none => []
  .branch tag (.leaf "name" a.name :: .leaf "type" a.kind.name :: value)

/-- Reads an attribute. Without a kind it is a text. -/
def ofNode (n : Node) : Except DecodeError Attribute := do
  n.expectName tag
  let name ← n.requireValue "name"
  if Text.isBlankText name then throw (.invalidValue "attribute.name" name)
  let kind ← match n.valueOf? "type" with
    | some raw => ValueKind.ofText raw
    | none => .ok .string
  let value ← match n.valueOf? "value" with
    | some raw => (Value.ofText kind raw).map some
    | none => .ok none
  return { name, kind, value }

end Attribute

/-- Attributes by name. -/
abbrev Attributes := SortedMap String Attribute

namespace Attributes

/-- Adds an attribute under its name in place of the one that was there. -/
def put (as : Attributes) (a : Attribute) : Attributes := SortedMap.insert as a.name a

/-- The attributes in the list, of which the last of a name counts. -/
def ofList (as : List Attribute) : Attributes := as.foldl put ∅

/-- The attributes with those of `delta` added or in place of theirs. -/
def merge (as delta : Attributes) : Attributes := delta.values.foldl put as

/-- The attributes of `delta` alone. -/
def replace (_ delta : Attributes) : Attributes := merge ∅ delta

/-- Whether every attribute stands under its own name. -/
def Keyed (as : Attributes) : Prop := ∀ name a, as.get? name = some a → a.name = name

/-- The attributes under a node of the given name, in order. -/
def toNode (name : String) (as : Attributes) : Node :=
  .branch name (as.values.map Attribute.toNode)

/-- Reads the attributes among the children of a node of any name. -/
def ofNode (n : Node) : Except DecodeError Attributes :=
  ((n.childrenNamed Attribute.tag).mapM Attribute.ofNode).map ofList

end Attributes

end Rendezvous
