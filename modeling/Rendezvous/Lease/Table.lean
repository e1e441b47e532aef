import Rendezvous.Lease.Handshake
import Rendezvous.Lease.Settings
import Rendezvous.Collection.SortedMap
/-!
# The table of leases

The leases that are running and their timers. Each arming of a lease has a generation of its own,
which is never used again, so that what belongs to an earlier arming can be told from what belongs
to the current one: a timer that fires late, or an answer to a handshake that is not awaited any
more, names a generation that is stale and has no effect.

A timer runs until its instant unless the lease is armed again or cancelled before; a lease that is
resolved away leaves its timer behind. `isAwaiting` is the check and `arm` the change of a renewal,
which can be taken apart where other operations come between.
-/

namespace Rendezvous

/-- Where a lease is in its life. -/
inductive LeasePhase
  /-- Its timer runs. -/
  | active
  /-- Its timer has fired, and the component is being asked. -/
  | handshaking
deriving DecidableEq, Inhabited, Repr

/-- The name of a phase. -/
def LeasePhase.name : LeasePhase → String
  | active => "Active"
  | handshaking => "Handshaking"

/-- A lease as it was armed last. -/
structure LeaseEntry where
  lease : Lease
  expiresAt : Instant
  generation : Nat
  phase : LeasePhase
deriving DecidableEq, Inhabited

/-- A timer that has fired. -/
structure Expiry where
  component : ComponentId
  generation : Nat
deriving DecidableEq, Inhabited

/-- A timer that runs. -/
structure Timer where
  due : Instant
  expiry : Expiry
deriving DecidableEq, Inhabited

/-- What comes of the answer to a handshake. -/
inductive Resolution
  | renewed (entry : LeaseEntry)
  /-- The lease is gone and the component has to go too. -/
  | evict (reason : String)
  /-- The answer is not awaited any more. -/
  | stale
deriving DecidableEq, Inhabited

/-- The leases and their timers. -/
structure LeaseTable where
  settings : LeaseSettings := {}
  entries : SortedMap ComponentId LeaseEntry := ∅
  nextGeneration : Nat := 1
  timers : List Timer := []
deriving DecidableEq

namespace LeaseTable

/-- The lease of a component. -/
def get? (t : LeaseTable) (id : ComponentId) : Option LeaseEntry := t.entries.get? id

/-- The number of leases. -/
def size (t : LeaseTable) : Nat := t.entries.size

/-- The timers but that of an arming of a lease. -/
def stopTimer (t : LeaseTable) (id : ComponentId) (entry : Option LeaseEntry) : List Timer :=
  match entry with
  | some e => t.timers.filter fun timer => timer.expiry ≠ ⟨id, e.generation⟩
  | none => t.timers

/-- Starts the lease of a component, in place of the one that it has. -/
def arm (now : Instant) (t : LeaseTable) (id : ComponentId) (requested : Option Lease) :
    LeaseEntry × LeaseTable :=
  let lease := t.settings.grant requested
  let entry : LeaseEntry := ⟨lease, now + lease.duration, t.nextGeneration, .active⟩
  (entry,
    { t with
      entries := t.entries.insert id entry
      nextGeneration := t.nextGeneration + 1
      timers := t.stopTimer id (t.get? id) ++ [⟨entry.expiresAt, ⟨id, entry.generation⟩⟩] })

/-- Ends the lease of a component without asking it. -/
def cancel (t : LeaseTable) (id : ComponentId) : Option LeaseEntry × LeaseTable :=
  match t.get? id with
  | none => (none, t)
  | some e =>
    (some e, { t with entries := t.entries.erase id, timers := t.stopTimer id (some e) })

/-- Takes note that a component is being asked, unless the expiry is stale. -/
def beginHandshake (t : LeaseTable) (x : Expiry) : Bool × LeaseTable :=
  match t.get? x.component with
  | none => (false, t)
  | some e =>
    -- A second expiry of the same arming finds the phase changed.
    if e.generation = x.generation ∧ e.phase = .active then
      (true, { t with entries := t.entries.insert x.component { e with phase := .handshaking } })
    else (false, t)

/-- Whether an answer is awaited for an arming of a lease. -/
def isAwaiting (t : LeaseTable) (x : Expiry) : Bool :=
  match t.get? x.component with
  | none => false
  | some e => e.generation = x.generation ∧ e.phase = .handshaking

/-- Ends the lease of a component whose timer has fired. -/
def drop (t : LeaseTable) (id : ComponentId) : LeaseTable :=
  -- Its timer has fired already, so there is none to stop.
  { t with entries := t.entries.erase id }

/-- Applies the answer of a component. -/
def resolve (now : Instant) (t : LeaseTable) (x : Expiry) (outcome : HandshakeOutcome) :
    Resolution × LeaseTable :=
  if t.isAwaiting x then
    match outcome with
    | .renewed lease =>
      let (entry, t) := t.arm now x.component (some lease)
      (.renewed entry, t)
    | .ended => (.evict "lease ended by component", t.drop x.component)
    | .failed reason => (.evict reason, t.drop x.component)
  else (.stale, t)

/-- The instant at which the next timer fires. -/
def nextDue? (t : LeaseTable) : Option Instant :=
  t.timers.foldl (fun least timer =>
    match least with
    | none => some timer.due
    | some i => some (min i timer.due)) none

/-- Takes away the timers that are due; those are given by instant, then by generation. -/
def fire (now : Instant) (t : LeaseTable) : List Timer × LeaseTable :=
  let due := t.timers.filter fun timer => timer.due ≤ now
  (due.mergeSort fun a b =>
      a.due < b.due ∨ (a.due = b.due ∧ a.expiry.generation ≤ b.expiry.generation),
    { t with timers := t.timers.filter fun timer => ¬ timer.due ≤ now })

end LeaseTable

end Rendezvous
