import Rendezvous.Service.Subscription
import Rendezvous.Transport.Dispatcher
/-!
# Notifications

What a subscriber is sent: which subscription fired, for which event, and the component concerned,
in full or in short as the subscription asks.
-/

namespace Rendezvous

/-- The component that a notification is about. -/
inductive Subject
  | full (c : Component)
  | basic (s : Summary)
deriving DecidableEq

namespace Subject

/-- The name of the component. -/
def id : Subject → ComponentId
  | full c => c.id
  | basic s => s.id

/-- The component as a node. -/
def toNode : Subject → Node
  | full c => c.toNode
  | basic s => s.toNode

end Subject

/-- What a subscriber is sent. -/
structure Notification where
  subscription : SubscriptionId
  callback : Callback
  subject : Subject
deriving DecidableEq

namespace Notification

/-- The notification of a subscription about a component. -/
def of (s : Subscription) (c : Component) : Notification :=
  ⟨s.id, s.callback, if s.full then .full c else .basic c.summary⟩

/-- The name of the nodes that carry notifications. -/
def tag : String := "componentNotification"

/-- The notification as a node. -/
def toNode (n : Notification) : Node :=
  .branch tag
    [.leaf "subscriptionId" n.subscription.text, .leaf "callback" n.callback.name,
      n.subject.toNode]

/-- Reads a notification. -/
def ofNode (n : Node) : Except DecodeError Notification := do
  n.expectName tag
  let raw ← n.requireValue "subscriptionId"
  let subscription ← match SubscriptionId.ofText? raw with
    | some id => .ok id
    | none => .error (.invalidValue "componentNotification.subscriptionId" raw)
  let raw ← n.requireValue "callback"
  let callback ← match Callback.ofText? raw with
    | some c => .ok c
    | none => .error (.unknownVariant "callback" raw)
  let subject ← match n.child? Component.tag, n.child? Summary.tag with
    | some c, _ => (Component.ofNode c).map Subject.full
    | none, some s => (Summary.ofNode s).map Subject.basic
    | none, none => .error (.missingField "componentNotification.component")
  return { subscription, callback, subject }

/-- The request that brings a notification to its subscriber. -/
def errand (wait : Duration) (c : Component) (s : Subscription) : Errand :=
  ⟨⟨s.owner, .notification s.id⟩, s.target, (of s c).toNode, wait⟩

end Notification

end Rendezvous
