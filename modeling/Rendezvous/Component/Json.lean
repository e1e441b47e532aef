import Rendezvous.Component.Basic
import Rendezvous.Json.Decoder
/-!
# Components in JSON

The stored form of components and their parts. Structures are objects with their fields in the order
of declaration, kinds are words, and a value stands under the name of its kind. Names stand under
their own keys, so a stored set of attributes can give an attribute another key than its name.
-/

namespace Rendezvous

namespace ComponentId

/-- The identifier as a JSON string. -/
def toJson (id : ComponentId) : Json := .string id.text

/-- Reads an identifier. -/
def ofJson? : Json.Decoder ComponentId := fun depth j => (Json.asString depth j).map .mk

end ComponentId

namespace SubscriptionId

/-- The number of the subscription as a JSON string. -/
def toJson (id : SubscriptionId) : Json := .string id.uuid.text

/-- Reads the number of a subscription. -/
def ofJson? : Json.Decoder SubscriptionId := fun depth j =>
  ((Json.asString depth j).bind Uuid.ofText?).map .mk

end SubscriptionId

namespace ValueKind

/-- The kind as a word. -/
def toJson (k : ValueKind) : Json := .string k.name

/-- Reads a kind. -/
def ofJson? : Json.Decoder ValueKind :=
  Json.asWord ([string, integer, float, boolean].map fun k => (k.name, k))

end ValueKind

namespace Value

/-- The value under the name of its kind. -/
def toJson : Value → Json
  | string s => Json.tagged "String" (.string s)
  | integer i => Json.tagged "Integer" (.integer i.toInt)
  | float x => Json.tagged "Float" (.real x)
  | boolean b => Json.tagged "Boolean" (.bool b)

/-- Reads a value. -/
def ofJson? : Json.Decoder Value := fun depth j => do
  let v ← Json.variant? depth j
  if v.name = "String" then (v.value? Json.asString).map string
  else if v.name = "Integer" then (v.value? Json.asInt64).map integer
  else if v.name = "Float" then (v.value? Json.asBinary64).map float
  else if v.name = "Boolean" then (v.value? Json.asBool).map boolean
  else none

end Value

namespace Attribute

/-- The fields in order. -/
def fieldNames : List String := ["name", "attribute_type", "value"]

/-- The attribute as an object. -/
def toJson (a : Attribute) : Json :=
  .object [("name", .string a.name), ("attribute_type", a.kind.toJson),
    ("value", Json.orNull Value.toJson a.value)]

/-- Reads an attribute. -/
def ofJson? : Json.Decoder Attribute := fun depth j => do
  let r ← Json.record? fieldNames depth j
  let name ← r.required "name" Json.asString
  let kind ← r.required "attribute_type" ValueKind.ofJson?
  let value ← r.nullable "value" Value.ofJson?
  some { name, kind, value }

end Attribute

namespace Attributes

/-- The attributes as an object with their keys. -/
def toJson (as : Attributes) : Json :=
  .object (as.toList.map fun e => (e.1, e.2.toJson))

/-- Reads attributes; of equal keys the last counts. -/
def ofJson? : Json.Decoder Attributes := fun depth j =>
  (Json.asMembers Attribute.ofJson? depth j).map SortedMap.ofList

end Attributes

/-- Names as an array. -/
def namesToJson (names : SortedSet String) : Json := .array (names.members.map Json.string)

/-- Reads names. -/
def namesOfJson? : Json.Decoder (SortedSet String) := fun depth j =>
  (Json.asList Json.asString depth j).map SortedSet.ofList

namespace ComponentKind

/-- The kind as a word. -/
def toJson (k : ComponentKind) : Json := .string k.name

/-- Reads a kind. -/
def ofJson? : Json.Decoder ComponentKind := Json.asWord (all.map fun k => (k.name, k))

end ComponentKind

namespace UpdateMode

/-- The mode as a word. -/
def toJson (m : UpdateMode) : Json := .string m.name

/-- Reads a mode. -/
def ofJson? : Json.Decoder UpdateMode := Json.asWord ([add, replace].map fun m => (m.name, m))

end UpdateMode

/-- A port as a number. -/
def portToJson (port : UInt16) : Json := Json.natural port.toNat

/-- Reads a port. -/
def portOfJson? : Json.Decoder UInt16 := fun depth j =>
  (Json.asNatural 65536 depth j).map Nat.toUInt16

namespace Summary

/-- The fields in order. -/
def fieldNames : List String :=
  ["id", "classname", "hostname", "host_address", "port", "component_type"]

/-- The summary as an object. -/
def toJson (s : Summary) : Json :=
  .object [("id", s.id.toJson), ("classname", .string s.classname),
    ("hostname", .string s.hostname), ("host_address", .string s.hostAddress),
    ("port", portToJson s.port), ("component_type", s.kind.toJson)]

/-- Reads a summary. -/
def ofJson? : Json.Decoder Summary := fun depth j => do
  let r ← Json.record? fieldNames depth j
  let id ← r.required "id" ComponentId.ofJson?
  let classname ← r.required "classname" Json.asString
  let hostname ← r.required "hostname" Json.asString
  let hostAddress ← r.required "host_address" Json.asString
  let port ← r.required "port" portOfJson?
  let kind ← r.required "component_type" ComponentKind.ofJson?
  some { id, classname, hostname, hostAddress, port, kind }

end Summary

namespace Component

/-- The fields in order. -/
def fieldNames : List String :=
  ["id", "classname", "hostname", "host_address", "port", "component_type", "version",
    "constant_attributes", "non_constant_attributes", "callbacks", "services", "subscribers"]

/-- The component as an object. -/
def toJson (c : Component) : Json :=
  .object [("id", c.id.toJson), ("classname", .string c.classname),
    ("hostname", .string c.hostname), ("host_address", .string c.hostAddress),
    ("port", portToJson c.port), ("component_type", c.kind.toJson),
    ("version", .string c.version), ("constant_attributes", Attributes.toJson c.constant),
    ("non_constant_attributes", Attributes.toJson c.nonConstant),
    ("callbacks", namesToJson c.callbacks), ("services", namesToJson c.services),
    ("subscribers", namesToJson c.subscribers)]

/-- Reads a component. -/
def ofJson? : Json.Decoder Component := fun depth j => do
  let r ← Json.record? fieldNames depth j
  let id ← r.required "id" ComponentId.ofJson?
  let classname ← r.required "classname" Json.asString
  let hostname ← r.required "hostname" Json.asString
  let hostAddress ← r.required "host_address" Json.asString
  let port ← r.required "port" portOfJson?
  let kind ← r.required "component_type" ComponentKind.ofJson?
  let version ← r.required "version" Json.asString
  let constant ← r.required "constant_attributes" Attributes.ofJson?
  let nonConstant ← r.required "non_constant_attributes" Attributes.ofJson?
  let callbacks ← r.required "callbacks" namesOfJson?
  let services ← r.required "services" namesOfJson?
  let subscribers ← r.required "subscribers" namesOfJson?
  some { id, classname, hostname, hostAddress, port, kind, version, constant, nonConstant,
         callbacks, services, subscribers }

end Component

end Rendezvous
