import Rendezvous.Lease.Basic
import Rendezvous.Transport.Error
/-!
# Signs of life

Two exchanges between the service and a component. At the end of its lease a component is told so
and can answer that it stays, with a new lease, or that it goes; `HandshakeOutcome.ofDelivery` is
what an answer comes to, and no answer or any other answer comes to a failure. A ping is answered by
a pong that names the component.
-/

namespace Rendezvous

/-- A message that says only which component it is about. -/
def aboutComponent (name : String) (id : ComponentId) : Node := .branch name [.leaf "id" id.text]

/-- The message at the end of a lease. -/
def leaseEndRequest (id : ComponentId) : Node := aboutComponent "leaseEnd" id

/-- The name of pings. -/
def pingTag : String := "ping"

/-- The message that asks a component whether it lives. -/
def pingRequest (id : ComponentId) : Node := aboutComponent pingTag id

/-- The name of the answers to pings. -/
def pongTag : String := "pong"

/-- The answer to a ping. -/
def pongReply (id : ComponentId) : Node := aboutComponent pongTag id

/-- Why an answer is no sign of life. -/
inductive LeaseError
  | unexpectedReply (name : String)
  | wrongComponent (expected found : ComponentId)
  | transport (error : TransportError)
  | decode (error : DecodeError)
deriving DecidableEq, Inhabited

namespace LeaseError

/-- The name of the kind of error. -/
def name : LeaseError → String
  | unexpectedReply _ => "UnexpectedReply"
  | wrongComponent _ _ => "WrongComponent"
  | transport _ => "Transport"
  | decode _ => "Decode"

/-- The error in words. -/
def message : LeaseError → String
  | unexpectedReply name => "Unexpected reply '" ++ name ++ "'"
  | wrongComponent expected found =>
    "Reply names " ++ found.text ++ ", expected " ++ expected.text
  | transport error => "Transport error: " ++ error.message
  | decode error => "Decode error: " ++ error.message

end LeaseError

/-- A component's answer to the end of its lease. -/
inductive HandshakeReply
  | renewal (component : ComponentId) (lease : Lease)
  | ended (component : ComponentId)
deriving DecidableEq, Inhabited

namespace HandshakeReply

/-- The component that answers. -/
def component : HandshakeReply → ComponentId
  | renewal c _ => c
  | ended c => c

/-- The name of the answer of a component that stays. -/
def renewalTag : String := "leaseRenewal"

/-- The name of the answer of a component that goes. -/
def endedTag : String := "leaseEnded"

/-- The answer as a node. -/
def toNode : HandshakeReply → Node
  | renewal c l => .branch renewalTag [.leaf "id" c.text, l.toNode]
  | ended c => aboutComponent endedTag c

/-- Reads an answer. -/
def ofNode (n : Node) : Except DecodeError HandshakeReply := do
  let component : ComponentId := ⟨← n.requireValue "id"⟩
  if n.name = renewalTag then
    return renewal component (← Lease.ofNode (← n.requireChild Lease.tag))
  else if n.name = endedTag then return ended component
  else throw (.unexpectedNode renewalTag n.name)

end HandshakeReply

/-- How the end of a lease was answered. -/
inductive HandshakeOutcome
  | renewed (lease : Lease)
  | ended
  | failed (reason : String)
deriving DecidableEq, Inhabited

/-- What the answer to the end of a component's lease comes to. -/
def HandshakeOutcome.ofDelivery (id : ComponentId) : Delivery → HandshakeOutcome
  | .error e => failed e.message
  | .ok n =>
    match HandshakeReply.ofNode n with
    | .error e => failed e.message
    | .ok reply =>
      -- An answer that names another component is no sign of life of this one.
      if reply.component ≠ id then
        failed (LeaseError.wrongComponent id reply.component).message
      else
        match reply with
        | .renewal _ lease => renewed lease
        | .ended _ => ended

/-- Checks the answer to a ping. -/
def checkPong (id : ComponentId) (n : Node) : Except LeaseError Unit :=
  if n.name ≠ pongTag then .error (.unexpectedReply n.name)
  else
    match n.requireValue "id" with
    | .error e => .error (.decode e)
    | .ok found => if found = id.text then .ok () else .error (.wrongComponent id ⟨found⟩)

/-- Checks what came of a ping. -/
def checkPing (id : ComponentId) : Delivery → Except LeaseError Unit
  | .error e => .error (.transport e)
  | .ok n => checkPong id n

end Rendezvous
