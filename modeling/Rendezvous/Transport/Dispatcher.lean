import Rendezvous.Transport.Network
import Rendezvous.Transport.Settings
/-!
# Requests that nobody waits for

A dispatcher sends requests in the background. At most `DispatchSettings.permits` are under way at
once; the others wait in the order in which they were given. What comes of a request, within the
time it is given, is a `Completion`, which carries the key that the request came with; completions
are taken out in the order in which they arose, one for each request. A request leaves its place to
the next one before its completion is put into the buffer, so a full buffer holds up no request; it
only bounds how many completions can be taken out at once.

The dispatcher stands still by itself: `launch` sends what may be sent at an instant, `land` takes
note of what has come by an instant, and `nextDue?` is the instant at which there is something to
take note of.
-/

namespace Rendezvous

/-- What a request was sent for. -/
inductive Purpose
  /-- To ask a component at the end of one arming of its lease. -/
  | leaseEnd (generation : Nat)
  /-- To notify a subscriber. -/
  | notification (subscription : SubscriptionId)
deriving DecidableEq, Inhabited

/-- What a request is told by. -/
structure CorrelationKey where
  component : ComponentId
  purpose : Purpose
deriving DecidableEq, Inhabited

namespace CorrelationKey

/-- The key in words. -/
def text (k : CorrelationKey) : String :=
  match k.purpose with
  | .leaseEnd generation => k.component.text ++ "/leaseEnd#" ++ Text.ofNat generation
  | .notification subscription => k.component.text ++ "/notification(" ++ subscription.text ++ ")"

end CorrelationKey

/-- A request with all that it needs. -/
structure Errand where
  key : CorrelationKey
  endpoint : Endpoint
  message : Node
  /-- How long its reply is waited for. -/
  wait : Duration
deriving DecidableEq, Inhabited

/-- A request that is under way, what will come of it and when. -/
structure Flight where
  errand : Errand
  landsAt : Instant
  result : Delivery

/-- What came of a request. -/
structure Completion where
  key : CorrelationKey
  result : Delivery

/-- The requests that wait, those under way, and what came of others. -/
structure Dispatcher where
  settings : DispatchSettings := {}
  waiting : List Errand := []
  flights : List Flight := []
  completed : List Completion := []

namespace Dispatcher

/-- Takes a request on. -/
def dispatch (d : Dispatcher) (errand : Errand) : Dispatcher :=
  { d with waiting := d.waiting ++ [errand] }

/-- The number of requests under way. -/
def inFlight (d : Dispatcher) : Nat := d.flights.length

/-- A request that is sent now. -/
def takeOff (network : Network) (now : Instant) (errand : Errand) : Flight :=
  let outcome := (network errand.endpoint errand.message).within errand.wait
  ⟨errand, now + outcome.1, outcome.2⟩

/-- Sends the requests whose turn it is, which are given too. -/
def launch (network : Network) (now : Instant) (d : Dispatcher) : List Errand × Dispatcher :=
  -- Requests take off in the order in which they were given.
  let free := d.settings.permits - d.flights.length
  let sent := d.waiting.take free
  (sent, { d with
    waiting := d.waiting.drop free
    flights := d.flights ++ sent.map (takeOff network now) })

/-- Takes note of the requests that came to something by now, in the order in which they did. -/
def land (now : Instant) (d : Dispatcher) : Dispatcher :=
  let landed := (d.flights.filter fun f => f.landsAt ≤ now).mergeSort
    fun a b => a.landsAt ≤ b.landsAt
  { d with
    flights := d.flights.filter fun f => ¬ f.landsAt ≤ now
    completed := d.completed ++ landed.map fun f => ⟨f.errand.key, f.result⟩ }

/-- The instant at which the next request comes to something. -/
def nextDue? (d : Dispatcher) : Option Instant :=
  d.flights.foldl (fun least f =>
    match least with
    | none => some f.landsAt
    | some i => some (min i f.landsAt)) none

/-- Takes the oldest completion out. -/
def receive (d : Dispatcher) : Option (Completion × Dispatcher) :=
  match d.completed with
  | [] => none
  | c :: rest => some (c, { d with completed := rest })

/-- What a dispatcher does in a span of time. -/
structure Progress where
  dispatcher : Dispatcher
  sent : List Errand
  /-- What came of requests, and when. -/
  landed : List (Instant × Completion)

/-- Goes on up to an instant, through at most the given number of instants at which a request comes
to something. -/
def advanceWithin (network : Network) (limit now : Instant) (p : Progress) : Nat → Progress
  | 0 => p
  | landings + 1 =>
    let (sent, d) := p.dispatcher.launch network now
    let p := { p with dispatcher := d, sent := p.sent ++ sent }
    match d.nextDue? with
    | none => p
    | some due =>
      if due ≤ limit then
        let d := d.land due
        advanceWithin network limit due
          { p with
            dispatcher := { d with completed := [] }
            landed := p.landed ++ d.completed.map fun c => (due, c) } landings
      else p

/-- Goes on from one instant up to another. Every request comes to something once, so there are no
more landings than requests. -/
def advance (network : Network) (now limit : Instant) (d : Dispatcher) : Progress :=
  advanceWithin network limit now ⟨d, [], []⟩ (d.waiting.length + d.flights.length + 1)

end Dispatcher

end Rendezvous
