import Rendezvous.Service.Mediator
/-!
# The service in its surroundings

The mediator with a clock, a network and the two mailboxes that connect it to them: timers that fire
put expiries into the one, requests that come to something put completions into the other. Nothing
takes time but waiting, and everything that is due at an instant is done at that instant
(`World.step?`) before the clock goes on to the next one at which something is due (`World.run`).

While the service is not `running`, what is in the mailboxes stays there. Once it is not
`listening`, what would be put into them is lost.
-/

namespace Rendezvous

/-- A message that has been sent. -/
structure Sent where
  endpoint : Endpoint
  message : Node
deriving DecidableEq, Inhabited

/-- The service with what is around it. -/
structure World (J : Type) where
  now : Instant := ⟨0⟩
  mediator : Mediator J
  network : Network
  /-- Whether the service handles what is in its mailboxes. -/
  running : Bool := true
  /-- Whether there are mailboxes. -/
  listening : Bool := true
  expiries : List Expiry := []
  /-- What has been sent, in order. -/
  sent : List Sent := []

namespace World

variable {J : Type}

/-- The requests that may be sent now are sent. -/
def launch (w : World J) : World J :=
  let (errands, dispatcher) := w.mediator.dispatcher.launch w.network w.now
  { w with
    mediator := { w.mediator with dispatcher }
    sent := w.sent ++ errands.map fun e => ⟨e.endpoint, e.message⟩ }

/-- The requests that have come to something are taken note of. -/
def land (w : World J) : World J :=
  let dispatcher := w.mediator.dispatcher.land w.now
  let dispatcher := if w.listening then dispatcher else { dispatcher with completed := [] }
  { w with mediator := { w.mediator with dispatcher } }

/-- The timers that are due fire. -/
def fire (w : World J) : World J :=
  let (timers, leases) := w.mediator.leases.fire w.now
  { w with
    mediator := { w.mediator with leases }
    expiries := if w.listening then w.expiries ++ timers.map Timer.expiry else [] }

/-- Whether something is due by an instant. -/
def isDue (due : Option Instant) (now : Instant) : Bool :=
  match due with
  | some i => i ≤ now
  | none => false

/-- The next thing that is to be done without any waiting, if there is one. -/
def step? [Journal J] (w : World J) : Option (World J) :=
  -- The surroundings come first: what they bring at this instant is in the mailboxes before the
  -- service looks into them.
  let d := w.mediator.dispatcher
  if d.waiting ≠ [] ∧ d.inFlight < d.settings.permits then some w.launch
  else if isDue d.nextDue? w.now then some w.land
  else if isDue w.mediator.leases.nextDue? w.now then some w.fire
  else if w.running then
    match w.expiries, d.receive with
    -- An expiry is handled before a completion of the same instant.
    | x :: expiries, _ => some { w with expiries, mediator := w.mediator.handleExpiry w.now x }
    | [], some (c, dispatcher) =>
      some { w with
        mediator := { w.mediator with dispatcher }.handleCompletion w.now c }
    | [], none => none
  else none

/-- The next instant at which something is due. -/
def nextDue? (w : World J) : Option Instant :=
  match w.mediator.dispatcher.nextDue?, w.mediator.leases.nextDue? with
  | some a, some b => some (min a b)
  | some a, none => some a
  | none, b => b

/-- Does all that is due up to an instant and lets the clock go on to it, in at most the given
number of steps. -/
def runWithin [Journal J] (w : World J) (until_ : Instant) : Nat → World J
  | 0 => { w with now := max w.now until_ }
  | steps + 1 =>
    match w.step? with
    | some w => runWithin w until_ steps
    | none =>
      match w.nextDue? with
      | some i => if i ≤ until_ then runWithin { w with now := i } until_ steps
        else { w with now := until_ }
      | none => { w with now := until_ }

/-- How many steps are done at most in one run. Only a service that grants leases of no length has
more to do. -/
def patience : Nat := 200000

/-- Does all that is due up to an instant. -/
def run [Journal J] (w : World J) (until_ : Instant) : World J := w.runWithin until_ patience

/-- Lets a span of time pass. -/
def sleep [Journal J] (w : World J) (d : Duration) : World J := w.run (w.now + d)

/-- Does all that is due now. -/
def settle [Journal J] (w : World J) : World J := w.run w.now

/-- Does an operation of the service, and all that is due then. -/
def perform [Journal J] {α : Type} (w : World J)
    (operation : Instant → Mediator J → α × Mediator J) : α × World J :=
  let (answer, mediator) := operation w.now w.mediator
  (answer, { w with mediator }.settle)

/-- Takes out of the mailboxes what is in them. Of the completions there are only so many in them as
the buffer keeps; the others take the places that become free. -/
def drain (w : World J) : (List Expiry × List Completion) × World J :=
  let d := w.mediator.dispatcher
  let kept := d.settings.capacity
  ((w.expiries, d.completed.take kept),
    { w with
      expiries := []
      mediator := { w.mediator with
        dispatcher := { d with completed := d.completed.drop kept } } })

/-- Does away with the mailboxes and all that was for them. -/
def deafen (w : World J) : World J :=
  { w with
    listening := false
    running := false
    expiries := []
    mediator := { w.mediator with
      dispatcher := { w.mediator.dispatcher with completed := [] } } }

/-- What comes of a ping to a component, and when. -/
def ping (w : World J) (c : Component) : Duration × Delivery :=
  (w.network (.ofComponent c) (pingRequest c.id)).within w.mediator.settings.lease.pingTimeout

/-- Whether what came of a ping is a sign of life. -/
def answered (id : ComponentId) (delivery : Delivery) : Bool :=
  match checkPing id delivery with
  | .ok () => true
  | .error _ => false

/-- Pings the components in the journal, all at once, and registers again those that answer. -/
def restore [Journal J] (w : World J) : Except ServiceError Nat × World J :=
  match w.mediator.journaled with
  | .error e => (.error e, w)
  | .ok cs =>
    let pings := cs.map w.ping
    let answers := (cs.zip pings).map fun p => (p.1, answered p.1.id p.2.2)
    let wait := pings.foldl (fun longest p => max longest p.1) ⟨0⟩
    let sent := cs.map fun c => Sent.mk (.ofComponent c) (pingRequest c.id)
    ({ w with sent := w.sent ++ sent }.sleep wait).perform fun now m => m.reinstate now answers

end World

end Rendezvous
