import Rendezvous.Lease.Table
import Rendezvous.Service.Cursor
import Rendezvous.Service.Journal
import Rendezvous.Service.Notification
import Rendezvous.Service.Settings
/-!
# The mediator

The state of the service and its operations. A component is registered for a lease; when the lease
has run out the component is asked, and unless it wants to stay it is evicted. Subscribers are told
of components that come, change and go. Requests to others are only handed to the dispatcher, and
what comes of them comes back as a completion.

Each operation is a function from a state to an answer and a state. It takes one registry call after
the other, and none after one that fails; failures of the journal are passed over. The names of
subscriptions come from a supply that is given from outside, as do those of cursors.
-/

namespace Rendezvous

/-- Where a component stands. -/
inductive Standing
  | unregistered
  | registered
  /-- Its lease has run out and it is being asked. -/
  | renewing
deriving DecidableEq, Inhabited, Repr

/-- The name of a standing. -/
def Standing.name : Standing → String
  | unregistered => "Unknown"
  | registered => "Registered"
  | renewing => "Renewing"

/-- What a component subscribes for. -/
structure SubscribeRequest where
  subscriber : ComponentId
  target : Endpoint
  /-- The word for the event. -/
  callback : String
  full : Bool
  query : Option Query
deriving Inhabited

/-- The state of the service. -/
structure Mediator (J : Type) where
  settings : MediatorSettings
  /-- What the service tells of itself. Its subscribers are the owners of subscriptions. -/
  self : Component
  registry : Registry
  leases : LeaseTable
  subscriptions : SubscriptionTable
  dispatcher : Dispatcher
  cursors : CursorTable
  journal : J
  /-- The names of subscriptions in the order in which they are given. -/
  subscriptionNames : Nat → SubscriptionId
  /-- The number of names that have been given. -/
  subscribed : Nat

namespace Mediator

/-- A service without components. -/
def new {J : Type} (settings : MediatorSettings) (journal : J) (cursorNames : Nat → String)
    (subscriptionNames : Nat → SubscriptionId) : Mediator J where
  settings
  self := settings.component
  registry := {}
  leases := { settings := settings.lease }
  subscriptions := {}
  dispatcher := { settings := settings.dispatch }
  cursors := .new settings.maxCursors cursorNames
  journal
  subscriptionNames
  subscribed := 0

variable {J : Type}

/-- What an operation answers, and the state after it. -/
abbrev Answer (J α : Type) := Except ServiceError α × Mediator J

/-- The name of the service. -/
def id (m : Mediator J) : ComponentId := ⟨m.settings.id⟩

/-- The registered components. -/
def directory (m : Mediator J) : Directory := m.registry.directory

/-- Where a component stands, by its lease. -/
def standing (m : Mediator J) (id : ComponentId) : Standing :=
  match m.leases.get? id with
  | none => .unregistered
  | some e =>
    match e.phase with
    | .active => .registered
    | .handshaking => .renewing

/-- Adds a subscriber to what the service tells of itself. -/
def addSubscriber (m : Mediator J) (id : ComponentId) : Mediator J :=
  { m with self := { m.self with subscribers := m.self.subscribers.add id.text } }

/-- Takes a subscriber out of what the service tells of itself. -/
def dropSubscriber (m : Mediator J) (id : ComponentId) : Mediator J :=
  { m with self := { m.self with subscribers := m.self.subscribers.erase id.text } }

/-- Hands the notifications of an event to the dispatcher. -/
def notify (m : Mediator J) (callback : Callback) (c : Component) : Mediator J :=
  let errands := (m.subscriptions.matching callback c).map
    (Notification.errand m.settings.dispatch.requestTimeout c)
  { m with dispatcher := errands.foldl Dispatcher.dispatch m.dispatcher }

/-- Runs a query. -/
def query (m : Mediator J) (q : Option Query) : Answer J (List Summary) :=
  match q with
  | none => (.error .emptyQuery, m)
  | some q =>
    match q.validate with
    | .error e => (.error (.invalidQuery e), m)
    | .ok () =>
      let (found, registry) := m.registry.search q
      (match found with
        | .ok cs => .ok (cs.map Component.summary)
        | .error e => .error (.ofDirectory e),
        { m with registry })

/-- Runs a query and gives the first page of what it finds. -/
def queryPage (m : Mediator J) (q : Option Query) (pageSize : Option Nat) : Answer J Page :=
  match m.query q with
  -- A query that fails opens no cursor.
  | (.error e, m) => (.error e, m)
  | (.ok found, m) =>
    let (page, cursors) := m.cursors.openPage found (pageSize.getD m.settings.defaultPageSize)
    (.ok page, { m with cursors })

/-- Gives the next page behind a cursor. -/
def queryNext (m : Mediator J) (cursor : String) : Answer J Page :=
  match m.cursors.next cursor with
  | .error e => (.error e, m)
  | .ok (page, cursors) => (.ok page, { m with cursors })

/-- Stores a standing query, which counts from now on. -/
def subscribe (m : Mediator J) (r : SubscribeRequest) : Answer J SubscriptionId :=
  match Callback.ofText r.callback with
  | .error e => (.error e, m)
  | .ok callback =>
    match r.query with
    | none => (.error .emptyQuery, m)
    | some query =>
      match query.validate with
      | .error e => (.error (.invalidQuery e), m)
      | .ok () =>
        let id := m.subscriptionNames m.subscribed
        let s : Subscription := ⟨id, r.subscriber, r.target, callback, r.full, query⟩
        (.ok id,
          { m with subscribed := m.subscribed + 1, subscriptions := m.subscriptions.insert s
            }.addSubscriber r.subscriber)

/-- Removes a subscription, and its owner from the subscribers if it was the last one. -/
def unsubscribe (m : Mediator J) (id : SubscriptionId) : Answer J Unit :=
  match m.subscriptions.remove id with
  | (none, _) => (.error (.unknownSubscriber id), m)
  | (some s, subscriptions) =>
    let m := { m with subscriptions }
    (.ok (), if (subscriptions.ownedBy s.owner).isEmpty then m.dropSubscriber s.owner else m)

/-- Renews the lease of a registered component. -/
def renew (now : Instant) (m : Mediator J) (id : ComponentId) (lease : Lease) : Answer J Lease :=
  match m.registry.contains id with
  | (.error e, registry) => (.error (.ofDirectory e), { m with registry })
  | (.ok false, registry) => (.error (.unknownComponent id), { m with registry })
  | (.ok true, registry) =>
    let (entry, leases) := m.leases.arm now id (some lease)
    (.ok entry.lease, { m with registry, leases })

section Journaled

variable [Journal J]

/-- Notes a registration in the journal; that it fails has no effect. -/
def record (m : Mediator J) (c : Component) : Mediator J :=
  { m with journal := (Journal.record m.journal c).2 }

/-- Strikes a registration out of the journal; that it fails has no effect. -/
def forget (m : Mediator J) (id : ComponentId) : Mediator J :=
  { m with journal := (Journal.forget m.journal id).2 }

/-- Registers a component, in place of the one of its name, and starts its lease anew. -/
def register (now : Instant) (m : Mediator J) (c : Component) (lease : Option Lease) :
    Answer J Lease :=
  match m.registry.add c with
  | (.error e, registry) => (.error (.ofDirectory e), { m with registry })
  | (.ok _, registry) =>
    let (entry, leases) := m.leases.arm now c.id lease
    (.ok entry.lease, ({ m with registry, leases }.record c).notify .newComponent c)

/-- Updates the attributes of a component, and starts its lease anew where one is asked for. -/
def update (now : Instant) (m : Mediator J) (id : ComponentId) (delta : Attributes)
    (mode : UpdateMode) (lease : Option Lease) : Answer J (Option Lease) :=
  match m.registry.update id delta mode with
  | (.error e, registry) => (.error (.ofDirectory e), { m with registry })
  | (.ok c, registry) =>
    let (granted, leases) := match lease with
      | none => (none, m.leases)
      | some l =>
        let (entry, leases) := m.leases.arm now id (some l)
        (some entry.lease, leases)
    (.ok granted, ({ m with registry, leases }.record c).notify .updatedComponent c)

/-- What follows from the removal of a component: its removal is made known, its subscriptions go,
and the journal forgets it. -/
def depart (m : Mediator J) (c : Component) : Mediator J :=
  let m := m.notify .removedComponent c
  let (gone, subscriptions) := m.subscriptions.removeOwnedBy c.id
  let m := { m with subscriptions }
  (if gone.isEmpty then m else m.dropSubscriber c.id).forget c.id

/-- Removes a component that asks for it. -/
def unregister (m : Mediator J) (id : ComponentId) : Answer J Unit :=
  match m.registry.remove id with
  | (.error e, registry) => (.error (.ofDirectory e), { m with registry })
  | (.ok none, registry) => (.error (.unknownComponent id), { m with registry })
  | (.ok (some c), registry) =>
    (.ok (), { m with registry, leases := (m.leases.cancel id).2 }.depart c)

/-- Removes a component whose lease has gone. One that holds a lease is left alone. -/
def evict (m : Mediator J) (id : ComponentId) : Answer J Unit :=
  -- It was registered again since its old lease went.
  if (m.leases.get? id).isSome then (.ok (), m)
  else
    match m.registry.remove id with
    | (.error e, registry) => (.error (.ofDirectory e), { m with registry })
    | (.ok none, registry) => (.ok (), { m with registry })
    | (.ok (some c), registry) => (.ok (), { m with registry }.depart c)

/-- Applies what came of asking a component at the end of its lease. -/
def conclude (now : Instant) (m : Mediator J) (x : Expiry) (outcome : HandshakeOutcome) :
    Mediator J :=
  let (resolution, leases) := m.leases.resolve now x outcome
  let m := { m with leases }
  match resolution with
  | .renewed _ | .stale => m
  | .evict _ => (m.evict x.component).2

/-- Asks a component whose lease timer has fired. -/
def handleExpiry (now : Instant) (m : Mediator J) (x : Expiry) : Mediator J :=
  match m.leases.beginHandshake x with
  | (false, _) => m
  | (true, leases) =>
    match m.registry.get x.component with
    | (.ok (some c), registry) =>
      let errand : Errand :=
        ⟨⟨x.component, .leaseEnd x.generation⟩, .ofComponent c, leaseEndRequest x.component,
          m.settings.lease.handshakeTimeout⟩
      { m with registry, leases, dispatcher := m.dispatcher.dispatch errand }
    -- The registration went before the lease did.
    | (.ok none, registry) => { m with registry, leases := (leases.cancel x.component).2 }
    -- Nobody can be asked, which counts as no answer.
    | (.error e, registry) =>
      { m with registry, leases }.conclude now x
        (.failed ("registry lookup failed: " ++ e.message))

/-- Takes note of what came of a request. -/
def handleCompletion (now : Instant) (m : Mediator J) (c : Completion) : Mediator J :=
  match c.key.purpose with
  | .leaseEnd generation =>
    m.conclude now ⟨c.key.component, generation⟩ (.ofDelivery c.key.component c.result)
  | .notification _ => m

/-- Registers again the components of which it is said that they have answered a ping, and strikes
the others out of the journal. Counts the former, up to one that the registry refuses. -/
def reinstate (now : Instant) (m : Mediator J) : List (Component × Bool) → Answer J Nat
  | [] => (.ok 0, m)
  | (c, true) :: rest =>
    match m.registry.add c with
    | (.error e, registry) => (.error (.ofDirectory e), { m with registry })
    | (.ok _, registry) =>
      let leases := (m.leases.arm now c.id none).2
      let (count, m) := reinstate now { m with registry, leases } rest
      (count.map (· + 1), m)
  | (c, false) :: rest => reinstate now (m.forget c.id) rest

/-- The components in the journal. -/
def journaled (m : Mediator J) : Except ServiceError (List Component) :=
  (Journal.load m.journal).mapError fun e => .log e.message

/-- Registers again the components in the journal that answer a ping. -/
def restore (now : Instant) (answers : Component → Bool) (m : Mediator J) : Answer J Nat :=
  match m.journaled with
  | .error e => (.error e, m)
  | .ok cs => m.reinstate now (cs.map fun c => (c, answers c))

end Journaled

end Mediator

end Rendezvous
