import Rendezvous.Json.Decoder
import Rendezvous.Message.Node
/-!
# Message trees in JSON

A node is an object with its name, its value if it has one and its children if it has any. Reading
takes those fields in any order, and `null` for a value that is not there.
-/

namespace Rendezvous.Node

mutual

/-- A tree as a JSON value. -/
def toJson : Node → Json
  | ⟨name, value, children⟩ =>
    let value := match value with
      | some v => [("value", .string v)]
      | none => []
    let children := match children with
      | [] => []
      | c :: cs => [("children", .array (listToJson (c :: cs)))]
    .object (("name", .string name) :: (value ++ children))

/-- Trees as JSON values. -/
def listToJson : List Node → List Json
  | [] => []
  | n :: ns => toJson n :: listToJson ns

end

/-- The fields of a node in their order. -/
def fieldNames : List String := ["name", "value", "children"]

/-- Reads a tree of at most the given height. -/
def decoderWithin : Nat → Json.Decoder Node
  | 0 => fun _ _ => none
  | height + 1 => fun depth j => do
    let r ← Json.record? fieldNames depth j
    let name ← r.required "name" Json.asString
    let value ← r.defaulted "value" none (Json.asOption Json.asString)
    let children ← r.defaulted "children" [] (Json.asList (decoderWithin height))
    some { name, value, children }

/-- Reads a tree. The levels that the JSON value may have are more than those of the tree. -/
def ofJson? : Json.Decoder Node := fun depth j => decoderWithin depth depth j

/-- A tree in one line of JSON. -/
def text (n : Node) : String := String.ofList n.toJson.compact

/-- Reads a tree from bytes. -/
def ofBytes? (cs : List (Option Char)) : Option Node := Json.decode? ofJson? cs

end Rendezvous.Node
