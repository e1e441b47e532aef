import Rendezvous.Query.Codec
import Rendezvous.Service.Error
/-!
# Subscriptions

A subscription is a standing query: whenever a component comes, changes or goes, those are told
whose subscription is for that event and whose query definitely holds of the component. The table
keeps subscriptions in the order in which they were made. A component that goes takes its own
subscriptions with it.
-/

namespace Rendezvous

/-- What a subscription can be for. -/
inductive Callback
  | newComponent
  | updatedComponent
  | removedComponent
deriving DecidableEq, Inhabited, Repr

namespace Callback

/-- The word for an event. -/
def name : Callback → String
  | newComponent => "newComponent"
  | updatedComponent => "updatedComponent"
  | removedComponent => "removedComponent"

/-- Every event. -/
def all : List Callback := [newComponent, updatedComponent, removedComponent]

/-- The event of a word. -/
def ofText? (raw : String) : Option Callback := all.find? fun c => c.name = Text.trim raw

/-- Reads an event. -/
def ofText (raw : String) : Except ServiceError Callback :=
  match ofText? raw with
  | some c => .ok c
  | none => .error (.unknownCallback raw)

/-- The events with their names in stored form. -/
def stored : List (String × Callback) :=
  [("NewComponent", newComponent), ("UpdatedComponent", updatedComponent),
    ("RemovedComponent", removedComponent)]

/-- The event by its name in stored form. -/
def toJson (c : Callback) : Json :=
  .string (((stored.find? fun e => e.2 = c).map Prod.fst).getD "")

/-- Reads an event in stored form. -/
def ofJson? : Json.Decoder Callback := Json.asWord stored

end Callback

/-- A standing query. -/
structure Subscription where
  id : SubscriptionId
  /-- The component that subscribed. -/
  owner : ComponentId
  /-- Where notifications go. -/
  target : Endpoint
  callback : Callback
  /-- Whether notifications carry all of a component or its summary. -/
  full : Bool
  query : Query
deriving Inhabited

/-- Whether the subscriber is told of an event that concerns a component. -/
def Subscription.fires (s : Subscription) (callback : Callback) (c : Component) : Bool :=
  s.callback = callback ∧ s.query.verdict c = .holds

/-- The subscriptions in the order in which they were made. -/
structure SubscriptionTable where
  list : List Subscription := []
deriving Inhabited

namespace SubscriptionTable

/-- Adds a subscription. -/
def insert (t : SubscriptionTable) (s : Subscription) : SubscriptionTable := ⟨t.list ++ [s]⟩

/-- Removes the subscription of a name and gives it. -/
def remove (t : SubscriptionTable) (id : SubscriptionId) :
    Option Subscription × SubscriptionTable :=
  (t.list.find? fun s => s.id = id, ⟨t.list.eraseP fun s => s.id = id⟩)

/-- The subscriptions of a component. -/
def ownedBy (t : SubscriptionTable) (owner : ComponentId) : List Subscription :=
  t.list.filter fun s => s.owner = owner

/-- Removes the subscriptions of a component and gives them. -/
def removeOwnedBy (t : SubscriptionTable) (owner : ComponentId) :
    List Subscription × SubscriptionTable :=
  (t.ownedBy owner, ⟨t.list.filter fun s => s.owner ≠ owner⟩)

/-- The subscriptions that fire. -/
def matching (t : SubscriptionTable) (callback : Callback) (c : Component) : List Subscription :=
  t.list.filter fun s => s.fires callback c

/-- The number of subscriptions. -/
def size (t : SubscriptionTable) : Nat := t.list.length

end SubscriptionTable

end Rendezvous
