import Rendezvous.Component.Basic
import Rendezvous.Query.Comparison
/-!
# Rules

The simplest queries: a selector picks a value or a set of names out of a component, and a
comparison holds it against an operand.
-/

namespace Rendezvous

/-- What a rule looks at. -/
inductive Selector
  | id
  | kind
  | classname
  | hostname
  | hostAddress
  | port
  | version
  | attribute (name : String)
  | callback
  | service
deriving DecidableEq, Inhabited, Repr

/-- What a selector finds in a component. -/
inductive Resolved
  | value (v : Value)
  | names (ns : SortedSet String)
  | missing

namespace Selector

/-- The word for what is selected; attributes share one. -/
def name : Selector → String
  | id => "id"
  | kind => "type"
  | classname => "classname"
  | hostname => "hostname"
  | hostAddress => "hostAddress"
  | port => "port"
  | version => "version"
  | .attribute _ => "attribute"
  | callback => "callback"
  | service => "service"

/-- The selectors that are given by their word alone. -/
def plain : List Selector :=
  [id, kind, classname, hostname, hostAddress, port, version, callback, service]

/-- The selector for a word and, for an attribute, its name. -/
def ofText (raw : String) (attributeName : Option String) : Except DecodeError Selector :=
  let word := Text.trim raw
  if word = "attribute" then
    match attributeName with
    | some n => .ok (.attribute n)
    | none => .error (.missingField "selector.name")
  else
    match plain.find? fun s => s.name = word with
    | some s => .ok s
    | none => .error (.unknownVariant "selector" word)

/-- The selector in words. -/
def text : Selector → String
  | .attribute n => "attribute:" ++ n
  | s => s.name

/-- What the selector finds. An attribute without a value is missing. -/
def resolve (c : Component) : Selector → Resolved
  | id => .value (.string c.id.text)
  | kind => .value (.string c.kind.name)
  | classname => .value (.string c.classname)
  | hostname => .value (.string c.hostname)
  | hostAddress => .value (.string c.hostAddress)
  | port => .value (.integer (Int64.ofNat c.port.toNat))
  | version => .value (.string c.version)
  | .attribute n =>
    match (c.attribute? n).bind Attribute.value with
    | some v => .value v
    | none => .missing
  | callback => .names c.callbacks
  | service => .names c.services

theorem resolve_attribute_eq_value {c : Component} {n : String} {v : Value} :
    (Selector.attribute n).resolve c = .value v ↔
      ∃ a, c.attribute? n = some a ∧ a.value = some v := by
  rw [← Option.bind_eq_some_iff, resolve]
  cases (c.attribute? n).bind Attribute.value <;> simp

/-- Only the callbacks and the services are sets of names. -/
theorem resolve_eq_names {s : Selector} {c : Component} {ns : SortedSet String} :
    s.resolve c = .names ns ↔
      s = callback ∧ c.callbacks = ns ∨ s = service ∧ c.services = ns := by
  cases s with
  | «attribute» n =>
    rw [resolve]
    cases (c.attribute? n).bind Attribute.value <;> simp
  | _ => simp [resolve]

end Selector

/-- A selector, a comparison and an operand. -/
structure Rule where
  selector : Selector
  comparison : Comparison
  operand : Value
deriving DecidableEq, Inhabited

namespace Rule

/-- What the rule says of a component. -/
def verdict (r : Rule) (c : Component) : Verdict :=
  match r.selector.resolve c with
  | .value v => r.comparison.evaluate v r.operand
  | .names ns =>
    let isMember := match r.operand.asString? with
      | some n => ns.contains n
      | none => false
    r.comparison.evaluateMembership isMember r.operand
  | .missing => .unknown

end Rule

end Rendezvous
