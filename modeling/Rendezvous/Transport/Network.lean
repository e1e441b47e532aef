import Rendezvous.Collection.Dict
import Rendezvous.Lease.Handshake
/-!
# Networks

What comes of a request, as far as the service can tell: an answer or a failure after a while, or
nothing ever. A `Network` says so for every endpoint and message. A `RouteTable` is a network that
is given by its endpoints, each of which behaves in one way; the others cannot be reached.
-/

namespace Rendezvous

/-- What comes of a request. -/
structure Reception where
  /-- How long it takes, if it comes to anything. -/
  delay : Option Duration
  delivery : Delivery

namespace Reception

/-- A reception without delay. -/
def immediately (delivery : Delivery) : Reception := ⟨some ⟨0⟩, delivery⟩

/-- What comes of a request that is waited for no longer than this, and when. -/
def within (r : Reception) (wait : Duration) : Duration × Delivery :=
  match r.delay with
  | some d => if d ≤ wait then (d, r.delivery) else (wait, .error (.timeout wait))
  | none => (wait, .error (.timeout wait))

end Reception

/-- What comes of a request to an endpoint. -/
abbrev Network := Endpoint → Node → Reception

/-- The network on which nothing can be reached. -/
def deadNetwork : Network := fun endpoint _ => .immediately (.error (.unreachable endpoint))

/-- How an endpoint answers. -/
inductive Responder
  /-- With a bare acknowledgement. -/
  | acknowledge
  /-- With the request. -/
  | echo
  /-- As a living component does to pings. -/
  | pong
  /-- As a component does that goes. -/
  | leave
  /-- As a component does that stays. -/
  | renew (lease : Lease)
  /-- Always with the same message. -/
  | fixed (reply : Node)

namespace Responder

/-- The component that a request names, if only by an empty name. -/
def componentOf (request : Node) : ComponentId := ⟨(request.valueOf? "id").getD ""⟩

/-- The answer to a request. -/
def reply (request : Node) : Responder → Node
  | acknowledge => { name := "ack" }
  | echo => request
  | pong => pongReply (componentOf request)
  | leave => (HandshakeReply.ended (componentOf request)).toNode
  | renew lease => (HandshakeReply.renewal (componentOf request) lease).toNode
  | fixed n => n

end Responder

/-- How an endpoint behaves. -/
inductive Route
  | respond (responder : Responder) (delay : Duration)
  | silent
  | fail (error : TransportError)

/-- The endpoints that can be reached. -/
abbrev RouteTable := Dict Endpoint Route

/-- A table of routes as a network. -/
def RouteTable.network (routes : RouteTable) : Network := fun endpoint request =>
  match Dict.get? routes endpoint with
  | none => deadNetwork endpoint request
  | some (.respond responder delay) => ⟨some delay, .ok (responder.reply request)⟩
  | some .silent => ⟨none, .error (.closed endpoint)⟩
  | some (.fail e) => .immediately (.error e)

end Rendezvous
