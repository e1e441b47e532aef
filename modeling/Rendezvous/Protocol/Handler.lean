import Rendezvous.Protocol.Reply
import Rendezvous.Protocol.Request
/-!
# Answering messages

A message to the service is answered in every case: a ping with a pong, a request with a reply. A
request is carried out only if it can be read and is for this service.
-/

namespace Rendezvous.Mediator

variable {J : Type}

/-- Refuses requests for another service. Lookups need not name one. -/
def checkTarget (m : Mediator J) (r : Request) : Except ServiceError Unit :=
  match r.target, r.body with
  | some target, _ => if target = m.id then .ok () else .error (.invalidId m.id target)
  -- Who looks for a service does not know its name yet.
  | none, .lookUp _ => .ok ()
  | none, _ => .error (.invalidId m.id ⟨""⟩)

/-- The reply to what an operation answers. -/
def replying {α : Type} (reply : α → Reply) (answer : Answer J α) : Reply × Mediator J :=
  (match answer.1 with
    | .ok a => reply a
    | .error e => .ofError e,
    answer.2)

variable [Journal J]

/-- Carries out a request for this service. -/
def execute (now : Instant) (m : Mediator J) : RequestBody → Reply × Mediator J
  | .lookUp _ => (.ok (.discoverer m.self.summary), m)
  | .register c lease => replying (fun l => .ok (.lease l)) (m.register now c lease)
  | .unregister id => replying (fun _ => .ok .empty) (m.unregister id)
  | .update id delta mode lease =>
    replying (fun l => .ok (match l with
      | some l => .lease l
      | none => .empty)) (m.update now id delta mode lease)
  | .query q pageSize => replying .ofPage (m.queryPage q pageSize)
  | .queryNext cursor => replying .ofPage (m.queryNext cursor)
  | .subscribe r => replying (fun id => .ok (.subscribed id)) (m.subscribe r)
  | .unsubscribe id => replying (fun _ => .ok .empty) (m.unsubscribe id)
  | .renewLease id lease => replying (fun l => .ok (.lease l)) (m.renew now id lease)

/-- Answers a request. -/
def handleRequest (now : Instant) (m : Mediator J) (n : Node) : Reply × Mediator J :=
  match Request.ofNode n with
  | .error e => (.ofError e, m)
  | .ok r =>
    match m.checkTarget r with
    | .error e => (.ofError e, m)
    | .ok () => m.execute now r.body

/-- Answers a message. -/
def handle (now : Instant) (m : Mediator J) (n : Node) : Node × Mediator J :=
  if n.name = pingTag then (pongReply m.id, m)
  else
    let (reply, m) := m.handleRequest now n
    (reply.toNode, m)

end Rendezvous.Mediator
