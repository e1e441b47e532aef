import Rendezvous.Query.Basic
/-!
# Queries as messages

A query is a tree of nodes that has the shape of the query: `queryAnd`, `queryOr` and `queryElse`
with any number of children, `queryNot` with one, and `queryRule` with a selector, a comparison and
an operand. `Query.ofNode` takes trees that are unsound too; `Query.decode` does not.
-/

namespace Rendezvous

namespace Rule

/-- The name of the nodes that carry rules. -/
def tag : String := "queryRule"

/-- The rule as a node. -/
def toNode (r : Rule) : Node :=
  let name := match r.selector with
    | .attribute n => [Node.leaf "name" n]
    | _ => []
  .branch tag
    [.branch "selector" (.leaf "kind" r.selector.name :: name),
      .leaf "comparison" r.comparison.name,
      .branch "operand" [.leaf "type" r.operand.kind.name, .leaf "value" r.operand.text]]

/-- Reads a rule. An operand without a kind is a text. -/
def ofNode (n : Node) : Except DecodeError Rule := do
  n.expectName tag
  let selectorNode ← n.requireChild "selector"
  let selector ← Selector.ofText (← selectorNode.requireValue "kind") (selectorNode.valueOf? "name")
  let comparison ← Comparison.ofText (← n.requireValue "comparison")
  let operandNode ← n.requireChild "operand"
  let kind ← match operandNode.valueOf? "type" with
    | some raw => ValueKind.ofText raw
    | none => .ok .string
  let operand ← Value.ofText kind (← operandNode.requireValue "value")
  return { selector, comparison, operand }

end Rule

namespace Query

mutual

/-- The query as a tree of nodes. -/
def toNode : Query → Node
  | rule r => r.toNode
  | all qs => .branch "queryAnd" (listToNodes qs)
  | any qs => .branch "queryOr" (listToNodes qs)
  | not q => .branch "queryNot" [toNode q]
  | noneOf qs => .branch "queryElse" (listToNodes qs)

/-- Queries as trees of nodes. -/
def listToNodes : List Query → List Node
  | [] => []
  | q :: qs => toNode q :: listToNodes qs

end

mutual

/-- Reads a query, sound or not. -/
def ofNode : Node → Except QueryError Query
  | ⟨name, value, children⟩ =>
    if name = Rule.tag then
      match Rule.ofNode ⟨name, value, children⟩ with
      | .ok r => .ok (rule r)
      | .error e => .error (.decode e)
    else if name = "queryAnd" then (ofNodes children).map all
    else if name = "queryOr" then (ofNodes children).map any
    else if name = "queryElse" then (ofNodes children).map noneOf
    else if name = "queryNot" then
      match children with
      | [] => .error .notArity
      | [child] => (ofNode child).map not
      | child :: extra :: _ =>
        -- Children are read before they are counted, so that a fault of their own shows first.
        match ofNode child, ofNode extra with
        | .ok _, .ok _ => .error .notArity
        | .error e, _ | _, .error e => .error e
    else .error (.unknownNode name)

/-- Reads queries in order. -/
def ofNodes : List Node → Except QueryError (List Query)
  | [] => .ok []
  | n :: ns =>
    match ofNode n with
    | .ok q => (ofNodes ns).map (q :: ·)
    | .error e => .error e

end

/-- Reads a sound query. -/
def decode (n : Node) : Except QueryError Query := do
  let q ← ofNode n
  q.validate
  return q

end Query

end Rendezvous
