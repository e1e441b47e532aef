import Rendezvous.Component.Json
import Rendezvous.Query.Basic
/-!
# Queries in JSON

The stored form of queries and their parts: each alternative under its name.
-/

namespace Rendezvous

namespace Verdict

/-- The verdict by its name. -/
def toJson (v : Verdict) : Json := .string v.name

/-- Reads a verdict. -/
def ofJson? : Json.Decoder Verdict := Json.asWord stored

end Verdict

namespace Comparison

/-- The comparisons with their names in stored form. -/
def stored : List (String × Comparison) :=
  [("Equal", equal), ("Different", different), ("Greater", greater),
    ("GreaterOrEqual", greaterOrEqual), ("Less", less), ("LessOrEqual", lessOrEqual)]

/-- The comparison by its name. -/
def toJson (c : Comparison) : Json :=
  .string (((stored.find? fun e => e.2 = c).map Prod.fst).getD "")

/-- Reads a comparison. -/
def ofJson? : Json.Decoder Comparison := Json.asWord stored

end Comparison

namespace Selector

/-- The selectors that come without a name, with their own in stored form. -/
def stored : List (String × Selector) :=
  [("Id", id), ("ComponentType", kind), ("Classname", classname), ("Hostname", hostname),
    ("HostAddress", hostAddress), ("Port", port), ("Version", version), ("Callback", callback),
    ("Service", service)]

/-- The selector by its name. -/
def toJson : Selector → Json
  | .attribute n => Json.tagged "Attribute" (.string n)
  | s => .string (((stored.find? fun e => e.2 = s).map Prod.fst).getD "")

/-- Reads a selector. -/
def ofJson? : Json.Decoder Selector := fun depth j => do
  let v ← Json.variant? depth j
  if v.name = "Attribute" then (v.value? Json.asString).map .attribute
  else Json.asWord stored depth j

end Selector

namespace Rule

/-- The fields in order. -/
def fieldNames : List String := ["selector", "comparison", "operand"]

/-- The rule as an object. -/
def toJson (r : Rule) : Json :=
  .object [("selector", r.selector.toJson), ("comparison", r.comparison.toJson),
    ("operand", r.operand.toJson)]

/-- Reads a rule. -/
def ofJson? : Json.Decoder Rule := fun depth j => do
  let r ← Json.record? fieldNames depth j
  let selector ← r.required "selector" Selector.ofJson?
  let comparison ← r.required "comparison" Comparison.ofJson?
  let operand ← r.required "operand" Value.ofJson?
  some { selector, comparison, operand }

end Rule

namespace Query

mutual

/-- The query under the name of its top node. -/
def toJson : Query → Json
  | rule r => Json.tagged "Rule" r.toJson
  | all qs => Json.tagged "And" (.array (listToJson qs))
  | any qs => Json.tagged "Or" (.array (listToJson qs))
  | not q => Json.tagged "Not" (toJson q)
  | noneOf qs => Json.tagged "Else" (.array (listToJson qs))

/-- Queries as JSON values. -/
def listToJson : List Query → List Json
  | [] => []
  | q :: qs => toJson q :: listToJson qs

end

/-- Reads a query of at most the given height. -/
def decoderWithin : Nat → Json.Decoder Query
  | 0 => fun _ _ => none
  | height + 1 => fun depth j => do
    let v ← Json.variant? depth j
    if v.name = "Rule" then (v.value? Rule.ofJson?).map rule
    else if v.name = "And" then (v.value? (Json.asList (decoderWithin height))).map all
    else if v.name = "Or" then (v.value? (Json.asList (decoderWithin height))).map any
    else if v.name = "Not" then (v.value? (decoderWithin height)).map not
    else if v.name = "Else" then (v.value? (Json.asList (decoderWithin height))).map noneOf
    else none

/-- Reads a query. -/
def ofJson? : Json.Decoder Query := fun depth j => decoderWithin depth depth j

end Query

end Rendezvous
