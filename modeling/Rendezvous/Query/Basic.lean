import Rendezvous.Query.Rule
/-!
# Queries

A query is a tree of rules. Its nodes ask for all, for some or for none of their children, or for
the opposite of one. A tree can be built that has nodes without children or attributes without a
name; `Query.validate` tells such trees from sound ones, and evaluation gives them a verdict too.
-/

namespace Rendezvous

/-- A query. -/
inductive Query
  | rule (r : Rule)
  | all (qs : List Query)
  | any (qs : List Query)
  | not (q : Query)
  | noneOf (qs : List Query)
deriving Inhabited

/-- What is wrong with a query. -/
inductive QueryError
  | emptyComposite (kind : String)
  | notArity
  | ruleHasNoChildren
  | unnamedAttribute
  | unknownNode (name : String)
  | decode (error : DecodeError)
deriving DecidableEq, Inhabited, Repr

namespace QueryError

/-- The name of the kind of error. -/
def name : QueryError → String
  | emptyComposite _ => "EmptyComposite"
  | notArity => "NotArity"
  | ruleHasNoChildren => "RuleHasNoChildren"
  | unnamedAttribute => "UnnamedAttribute"
  | unknownNode _ => "UnknownNode"
  | decode _ => "Decode"

/-- The error in words. -/
def message : QueryError → String
  | emptyComposite kind => kind ++ " node requires at least one child"
  | notArity => "not node takes exactly one child"
  | ruleHasNoChildren => "rule node cannot have children"
  | unnamedAttribute => "attribute selector requires a name"
  | unknownNode name => "unknown query node: " ++ name
  | decode error => "malformed query: " ++ error.message

end QueryError

namespace Query

/-- The query that one selected value compares in one way. -/
def compare (selector : Selector) (comparison : Comparison) (operand : Value) : Query :=
  rule ⟨selector, comparison, operand⟩

/-- The query for components of a kind. -/
def kindIs (kind : ComponentKind) : Query := compare .kind .equal (.string kind.name)

/-- The query for the component of a name. -/
def idIs (id : String) : Query := compare .id .equal (.string id)

/-- The query that compares an attribute. -/
def onAttribute (name : String) (comparison : Comparison) (operand : Value) : Query :=
  compare (.attribute name) comparison operand

/-- The word for the node at the top. -/
def kind : Query → String
  | rule _ => "rule"
  | all _ => "and"
  | any _ => "or"
  | not _ => "not"
  | noneOf _ => "else"

/-- The query with a child more at its end. -/
def addChild (q child : Query) : Except QueryError Query :=
  match q with
  | all qs => .ok (all (qs ++ [child]))
  | any qs => .ok (any (qs ++ [child]))
  | noneOf qs => .ok (noneOf (qs ++ [child]))
  | not _ => .error .notArity
  | rule _ => .error .ruleHasNoChildren

mutual

/-- Finds the first thing that makes a tree unsound. -/
def validate : Query → Except QueryError Unit
  | rule r =>
    match r.selector with
    | .attribute name => if Text.isBlankText name then .error .unnamedAttribute else .ok ()
    | _ => .ok ()
  | all qs => if qs.isEmpty then .error (.emptyComposite "and") else validateAll qs
  | any qs => if qs.isEmpty then .error (.emptyComposite "or") else validateAll qs
  | noneOf qs => if qs.isEmpty then .error (.emptyComposite "else") else validateAll qs
  | not q => validate q

/-- Finds the first thing that makes one of some trees unsound. -/
def validateAll : List Query → Except QueryError Unit
  | [] => .ok ()
  | q :: qs =>
    match validate q with
    | .ok () => validateAll qs
    | .error e => .error e

end

mutual

/-- What the query says of a component. -/
def verdict (c : Component) : Query → Verdict
  | rule r => r.verdict c
  | all qs => .all (verdicts c qs)
  | any qs => .any (verdicts c qs)
  | not q => (verdict c q).complement
  | noneOf qs => (Verdict.any (verdicts c qs)).complement

/-- What queries say of a component. -/
def verdicts (c : Component) : List Query → List Verdict
  | [] => []
  | q :: qs => verdict c q :: verdicts c qs

end

end Query

end Rendezvous
