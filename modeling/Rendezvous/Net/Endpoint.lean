import Rendezvous.Component.Json
/-!
# Endpoints

Where a component takes requests: a host, by name or address, and a port. An endpoint is written
with a colon between the two, and a host may have colons of its own.
-/

namespace Rendezvous

/-- A host and a port. -/
structure Endpoint where
  host : String
  port : UInt16
deriving DecidableEq, Inhabited, Repr

namespace Endpoint

/-- Where a registered component takes requests. -/
def ofComponent (c : Component) : Endpoint := ⟨c.hostAddress, c.port⟩

/-- Where the component of a summary takes requests. -/
def ofSummary (s : Summary) : Endpoint := ⟨s.hostAddress, s.port⟩

/-- The endpoint as text. -/
def text (e : Endpoint) : String := e.host ++ ":" ++ Text.ofNat e.port.toNat

/-- Reads an endpoint. The last colon ends the host, which must not be empty. -/
def ofText? (s : String) : Option Endpoint :=
  let reversed := s.toList.reverse
  let port := (reversed.takeWhile (· ≠ ':')).reverse
  match reversed.dropWhile (· ≠ ':') with
  | [] => none
  | _ :: host =>
    if host.isEmpty then none
    else (Text.word16? (String.ofList port)).map fun port => ⟨String.ofList host.reverse, port⟩

/-- The endpoint as an object. -/
def toJson (e : Endpoint) : Json := .object [("host", .string e.host), ("port", portToJson e.port)]

/-- Reads an endpoint from an object. -/
def ofJson? : Json.Decoder Endpoint := fun depth j => do
  let r ← Json.record? ["host", "port"] depth j
  return ⟨← r.required "host" Json.asString, ← r.required "port" portOfJson?⟩

end Endpoint

end Rendezvous
