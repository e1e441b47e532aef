import Rendezvous.Lease.Basic
/-!
# Lease settings

What lease a registration gets. Whatever is asked for is brought between a shortest and a longest
lease; settings whose longest lease is shorter than the shortest grant the shortest.
-/

namespace Rendezvous

/-- What leases are granted and how long the answers of components are waited for. -/
structure LeaseSettings where
  /-- The lease of a registration that asks for none. -/
  default : Duration := .ofSeconds 60
  shortest : Duration := .ofSeconds 1
  longest : Duration := .ofSeconds 3600
  /-- How long the answer to the end of a lease is waited for. -/
  handshakeTimeout : Duration := .ofSeconds 5
  /-- How long the answer to a ping is waited for. -/
  pingTimeout : Duration := .ofSeconds 2
deriving DecidableEq, Inhabited

namespace LeaseSettings

/-- Settings with short times. -/
def fast : LeaseSettings where
  default := .ofMillis 500
  shortest := .ofMillis 10
  longest := .ofSeconds 60
  handshakeTimeout := .ofMillis 100
  pingTimeout := .ofMillis 100

/-- A span brought between the shortest and the longest lease. -/
def clamp (s : LeaseSettings) (d : Duration) : Duration := d.clamp s.shortest s.longest

/-- The lease that is granted. -/
def grant (s : LeaseSettings) (requested : Option Lease) : Lease :=
  ⟨s.clamp (match requested with
    | some l => l.duration
    | none => s.default)⟩

/-- The fields in order. -/
def fieldNames : List String :=
  ["default_duration", "min_duration", "max_duration", "handshake_timeout", "ping_timeout"]

/-- The settings as an object. -/
def toJson (s : LeaseSettings) : Json :=
  .object [("default_duration", s.default.toJson), ("min_duration", s.shortest.toJson),
    ("max_duration", s.longest.toJson), ("handshake_timeout", s.handshakeTimeout.toJson),
    ("ping_timeout", s.pingTimeout.toJson)]

/-- Reads settings, each of which has its default. -/
def decoder (leaves : Json.Leaves) : Json.Decoder LeaseSettings := fun depth j => do
  let base : LeaseSettings := {}
  let span := Duration.decoder leaves
  let r ← leaves.record? fieldNames depth j
  let default ← r.defaulted "default_duration" base.default span
  let shortest ← r.defaulted "min_duration" base.shortest span
  let longest ← r.defaulted "max_duration" base.longest span
  let handshakeTimeout ← r.defaulted "handshake_timeout" base.handshakeTimeout span
  let pingTimeout ← r.defaulted "ping_timeout" base.pingTimeout span
  some { default, shortest, longest, handshakeTimeout, pingTimeout }

end LeaseSettings

end Rendezvous
