import Rendezvous.Lease.Basic
import Rendezvous.Net.Address
/-!
# Transport settings

How requests are sent: how many at once, how long they are waited for, and where lookups go.
-/

namespace Rendezvous

/-- How requests are sent that nobody waits for. -/
structure DispatchSettings where
  /-- How many may be under way at once; zero counts as one. -/
  maxInFlight : Nat := 64
  /-- How long a reply is waited for where nothing else is said. -/
  requestTimeout : Duration := .ofSeconds 5
  /-- How many outcomes are kept before further ones have to wait; zero counts as one. -/
  completionBuffer : Nat := 256
deriving DecidableEq, Inhabited

namespace DispatchSettings

/-- How many requests are sent at once. -/
def permits (s : DispatchSettings) : Nat := max 1 s.maxInFlight

/-- How many outcomes are kept at once. -/
def capacity (s : DispatchSettings) : Nat := max 1 s.completionBuffer

/-- How many requests can be under way, and how many outcomes kept, in any case. -/
def maxPlaces : Nat := 0x2000_0000_0000_0000 - 1

/-- Whether there can be a dispatcher with such settings. -/
def isFeasible (s : DispatchSettings) : Bool := s.permits ≤ maxPlaces ∧ s.capacity ≤ maxPlaces

/-- The fields in order. -/
def fieldNames : List String := ["max_in_flight", "request_timeout", "completion_buffer"]

/-- The settings as an object. -/
def toJson (s : DispatchSettings) : Json :=
  .object [("max_in_flight", Json.natural s.maxInFlight),
    ("request_timeout", s.requestTimeout.toJson),
    ("completion_buffer", Json.natural s.completionBuffer)]

/-- Reads settings, each of which has its default. -/
def decoder (leaves : Json.Leaves) : Json.Decoder DispatchSettings := fun depth j => do
  let base : DispatchSettings := {}
  let count := leaves.natural UInt64.size
  let r ← leaves.record? fieldNames depth j
  let maxInFlight ← r.defaulted "max_in_flight" base.maxInFlight count
  let requestTimeout ← r.defaulted "request_timeout" base.requestTimeout (Duration.decoder leaves)
  let completionBuffer ← r.defaulted "completion_buffer" base.completionBuffer count
  some { maxInFlight, requestTimeout, completionBuffer }

end DispatchSettings

/-- How connections are made and where lookups are sent. -/
structure ConnectionSettings where
  connectTimeout : Duration := .ofSeconds 3
  multicastGroup : Net.SocketAddress := .v4 ⟨[239, 255, 47, 1]⟩ 5555
  /-- How long the answer to a lookup is waited for. -/
  multicastWindow : Duration := .ofSeconds 1
deriving DecidableEq

namespace ConnectionSettings

/-- The fields in order. -/
def fieldNames : List String := ["connect_timeout", "multicast_group", "multicast_window"]

/-- The settings as an object. -/
def toJson (s : ConnectionSettings) : Json :=
  .object [("connect_timeout", s.connectTimeout.toJson),
    ("multicast_group", .string s.multicastGroup.text),
    ("multicast_window", s.multicastWindow.toJson)]

/-- Reads settings, each of which has its default. A group has an address of version 4. -/
def decoder (leaves : Json.Leaves) : Json.Decoder ConnectionSettings := fun depth j => do
  let base : ConnectionSettings := {}
  let span := Duration.decoder leaves
  let group : Json.Decoder Net.SocketAddress := fun depth j =>
    (leaves.text depth j).bind Net.SocketAddress.v4OfText?
  let r ← leaves.record? fieldNames depth j
  let connectTimeout ← r.defaulted "connect_timeout" base.connectTimeout span
  let multicastGroup ← r.defaulted "multicast_group" base.multicastGroup group
  let multicastWindow ← r.defaulted "multicast_window" base.multicastWindow span
  some { connectTimeout, multicastGroup, multicastWindow }

end ConnectionSettings

end Rendezvous
