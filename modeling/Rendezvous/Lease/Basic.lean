import Rendezvous.Message.Json
import Rendezvous.Time.Duration
/-!
# Leases

A lease is the time for which a registration stands without a sign of life. Messages carry it in
milliseconds modulo the size of a word, stored settings in milliseconds up to the greatest word; for
every lease that a message has named the two agree.
-/

namespace Rendezvous

/-- A span of time for which a registration is asked or granted. -/
structure Lease where
  duration : Duration
deriving DecidableEq, Inhabited

namespace Lease

/-- The lease of a number of milliseconds. -/
def ofMillis (n : Nat) : Lease := ⟨.ofMillis n⟩

/-- The name of the nodes that carry leases. -/
def tag : String := "lease"

/-- The lease as a node. -/
def toNode (l : Lease) : Node :=
  .branch tag [.leaf "durationMs" (Text.ofNat l.duration.wireMillis)]

/-- Reads a lease. -/
def ofNode (n : Node) : Except DecodeError Lease := do
  n.expectName tag
  return ofMillis (← n.parse "durationMs" Text.word64?)

/-- Reads the lease among the children of a node, if there is one. -/
def childOf (n : Node) : Except DecodeError (Option Lease) :=
  match n.child? tag with
  | some c => (ofNode c).map some
  | none => .ok none

end Lease

namespace Duration

/-- A span in milliseconds. -/
def toJson (d : Duration) : Json := Json.natural d.storedMillis

/-- Reads a span in milliseconds. -/
def decoder (leaves : Json.Leaves) : Json.Decoder Duration := fun depth j =>
  (leaves.natural UInt64.size depth j).map ofMillis

end Duration

namespace Lease

/-- The lease as an object. -/
def toJson (l : Lease) : Json := .object [("duration", l.duration.toJson)]

/-- Reads a lease. -/
def ofJson? : Json.Decoder Lease := fun depth j => do
  let r ← Json.record? ["duration"] depth j
  return ⟨← r.required "duration" (Duration.decoder Json.exactLeaves)⟩

end Lease

end Rendezvous
