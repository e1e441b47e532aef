import Rendezvous.Component.Attribute
import Rendezvous.Component.Identity
/-!
# Components

What is known of a component: who and where it is, what attributes it has and what it offers. A
non-constant attribute hides a constant one of its name (`Component.attribute?`); only the former
change, by updates (`Component.update`). A `Summary` is the part that answers and short
notifications carry.
-/

namespace Rendezvous

/-- The kinds of components. -/
inductive ComponentKind
  | application
  | widget
  | server
  | interpreter
  | discoverer
deriving DecidableEq, Inhabited, Repr

namespace ComponentKind

/-- The word for a kind. -/
def name : ComponentKind → String
  | application => "application"
  | widget => "widget"
  | server => "server"
  | interpreter => "interpreter"
  | discoverer => "discoverer"

/-- Every kind. -/
def all : List ComponentKind := [application, widget, server, interpreter, discoverer]

/-- Reads a kind, whose letters may be of either case. -/
def ofText (raw : String) : Except DecodeError ComponentKind :=
  let word := Text.lowerAscii (Text.trim raw)
  match all.find? fun k => k.name = word with
  | some k => .ok k
  | none => .error (.unknownVariant "component type" word)

end ComponentKind

/-- How an update treats the attributes that it does not name. -/
inductive UpdateMode
  /-- It keeps them. -/
  | add
  /-- It drops them. -/
  | replace
deriving DecidableEq, Inhabited, Repr

namespace UpdateMode

/-- The word for a mode. -/
def name : UpdateMode → String
  | add => "add"
  | replace => "replace"

/-- Reads a mode, whose letters may be of either case. -/
def ofText (raw : String) : Except DecodeError UpdateMode :=
  let word := Text.lowerAscii (Text.trim raw)
  if word = "add" then .ok add
  else if word = "replace" then .ok replace
  else .error (.unknownVariant "update mode" word)

end UpdateMode

/-- A component as it is known to others. -/
structure Component where
  id : ComponentId
  classname : String := ""
  hostname : String := "localhost"
  hostAddress : String := "127.0.0.1"
  port : UInt16 := 0
  kind : ComponentKind
  version : String := "1.0"
  /-- The attributes that stay as they are for as long as the component is registered. -/
  constant : Attributes := ∅
  /-- The attributes that updates change. -/
  nonConstant : Attributes := ∅
  callbacks : SortedSet String := ∅
  services : SortedSet String := ∅
  /-- Who listens to the component. -/
  subscribers : SortedSet String := ∅
deriving DecidableEq

/-- Who a component is and where it can be reached. -/
structure Summary where
  id : ComponentId
  classname : String
  hostname : String
  hostAddress : String
  port : UInt16
  kind : ComponentKind
deriving DecidableEq

/-- Names as leaves under a node. -/
def namesToNode (name item : String) (names : SortedSet String) : Node :=
  .branch name (names.members.map (Node.leaf item))

/-- Reads the names under a child; nodes without a value have none. -/
def namesOfNode (n : Node) (name item : String) : SortedSet String :=
  match n.child? name with
  | some c => SortedSet.ofList ((c.childrenNamed item).filterMap Node.value)
  | none => ∅

namespace Summary

/-- The name of the nodes that carry summaries. -/
def tag : String := "componentSummary"

/-- The summary as a node. -/
def toNode (s : Summary) : Node :=
  .branch tag
    [.leaf "id" s.id.text, .leaf "classname" s.classname, .leaf "hostname" s.hostname,
      .leaf "hostAddress" s.hostAddress, .leaf "port" (Text.ofNat s.port.toNat),
      .leaf "type" s.kind.name]

/-- Reads a summary. -/
def ofNode (n : Node) : Except DecodeError Summary := do
  n.expectName tag
  let id ← n.requireValue "id"
  let hostname ← n.requireValue "hostname"
  let hostAddress ← n.requireValue "hostAddress"
  let port ← n.parse "port" Text.word16?
  let kind ← ComponentKind.ofText (← n.requireValue "type")
  return { id := ⟨id⟩, classname := (n.valueOf? "classname").getD "", hostname, hostAddress, port,
           kind }

end Summary

namespace Component

/-- The attribute of a name; a non-constant one hides a constant one. -/
def attribute? (c : Component) (name : String) : Option Attribute :=
  match c.nonConstant.get? name with
  | some a => some a
  | none => c.constant.get? name

/-- The attributes that are not hidden: the non-constant ones, then the constant ones. -/
def resolved (c : Component) : List Attribute :=
  c.nonConstant.values ++ c.constant.values.filter fun a => !c.nonConstant.contains a.name

/-- The component after an update of its non-constant attributes. -/
def update (c : Component) (delta : Attributes) (mode : UpdateMode) : Component :=
  { c with
    nonConstant := match mode with
      | .add => c.nonConstant.merge delta
      | .replace => c.nonConstant.replace delta }

/-- The summary of a component. -/
def summary (c : Component) : Summary :=
  ⟨c.id, c.classname, c.hostname, c.hostAddress, c.port, c.kind⟩

/-- The name of the nodes that carry components. -/
def tag : String := "component"

/-- The component as a node. -/
def toNode (c : Component) : Node :=
  .branch tag
    [.leaf "id" c.id.text, .leaf "classname" c.classname, .leaf "hostname" c.hostname,
      .leaf "hostAddress" c.hostAddress, .leaf "port" (Text.ofNat c.port.toNat),
      .leaf "type" c.kind.name, .leaf "version" c.version,
      c.constant.toNode "constantAttributes", c.nonConstant.toNode "nonConstantAttributes",
      namesToNode "callbacks" "callback" c.callbacks,
      namesToNode "services" "service" c.services,
      namesToNode "subscribers" "subscriber" c.subscribers]

/-- Reads the attributes under a child, none if it is missing. -/
def attributesOf (n : Node) (name : String) : Except DecodeError Attributes :=
  match n.child? name with
  | some c => Attributes.ofNode c
  | none => .ok ∅

/-- Reads a component. It needs a name that is not blank and a kind; all else has a default. -/
def ofNode (n : Node) : Except DecodeError Component := do
  n.expectName tag
  let id : ComponentId := ⟨← n.requireValue "id"⟩
  if id.isBlank then throw (.invalidValue "component.id" id.text)
  let kind ← ComponentKind.ofText (← n.requireValue "type")
  let blank : Component := { id, kind }
  let port ← n.parseOptional "port" Text.word16?
  let constant ← attributesOf n "constantAttributes"
  let nonConstant ← attributesOf n "nonConstantAttributes"
  return { id, kind, constant, nonConstant,
           classname := (n.valueOf? "classname").getD blank.classname,
           hostname := (n.valueOf? "hostname").getD blank.hostname,
           hostAddress := (n.valueOf? "hostAddress").getD blank.hostAddress,
           port := port.getD blank.port,
           version := (n.valueOf? "version").getD blank.version,
           callbacks := namesOfNode n "callbacks" "callback",
           services := namesOfNode n "services" "service",
           subscribers := namesOfNode n "subscribers" "subscriber" }

end Component

end Rendezvous
