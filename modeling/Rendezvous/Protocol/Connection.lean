import Rendezvous.Protocol.Handler
import Rendezvous.Transport.Framing
/-!
# Connections

A connection brings messages, one to a line, and takes one reply for each, in order. A line that is
no message is answered as one that cannot be read, and so is the first line that is too long, after
which the connection ends.
-/

namespace Rendezvous

/-- The reply to what is no message. -/
def garbledReply : Node := (Reply.mk .invalidData .empty).toNode

namespace Mediator

variable {J : Type} [Journal J]

/-- Answers all that a connection brings, with lines of at most `limit` bytes. The line that is
answered after `k` others is carried out at the instant `clock k`. -/
def serveWithin (limit : Nat) (clock : Nat → Instant) (m : Mediator J) (bytes : List UInt8) :
    List Node × Mediator J :=
  if h : bytes = [] then ([], m)
  else
    let next := Framing.receive limit bytes
    have : next.2.length < bytes.length := Framing.receive_length_lt h
    match next.1 with
    | .ended => ([], m)
    | .tooLong => ([garbledReply], m)
    | .garbled =>
      let (replies, m) := serveWithin limit (fun k => clock (k + 1)) m next.2
      (garbledReply :: replies, m)
    | .message n =>
      let (reply, m) := m.handle (clock 0) n
      let (replies, m) := serveWithin limit (fun k => clock (k + 1)) m next.2
      (reply :: replies, m)
termination_by bytes.length

/-- Answers all that a connection brings. -/
def serve (clock : Nat → Instant) (m : Mediator J) (bytes : List UInt8) :
    List Node × Mediator J :=
  m.serveWithin Framing.defaultLimit clock bytes

end Mediator

end Rendezvous
