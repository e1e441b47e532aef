import Rendezvous.Service.Cursor
import Rendezvous.Lease.Basic
/-!
# Replies

Every request is answered with one reply: a code and, where there is one, what was asked for.
-/

namespace Rendezvous

/-- What a reply brings. -/
inductive ReplyBody
  | empty
  | discoverer (s : Summary)
  | lease (l : Lease)
  | components (p : Page)
  | subscribed (id : SubscriptionId)
deriving DecidableEq

/-- The name of what a reply brings. -/
def ReplyBody.name : ReplyBody → String
  | empty => "Empty"
  | discoverer _ => "Discoverer"
  | lease _ => "Lease"
  | components _ => "Components"
  | subscribed _ => "Subscribed"

/-- The answer to a request. -/
structure Reply where
  code : ReplyCode
  body : ReplyBody
deriving DecidableEq

namespace Reply

/-- The name of the nodes that carry replies. -/
def tag : String := "reply"

/-- The answer to a request that was carried out. -/
def ok (body : ReplyBody) : Reply := ⟨.noError, body⟩

/-- The answer to a request that failed. -/
def ofError (e : ServiceError) : Reply := ⟨e.code, .empty⟩

/-- The answer with a page, of which it is said if it is empty. -/
def ofPage (p : Page) : Reply := ⟨if p.isEmpty then .emptyResult else .noError, .components p⟩

/-- The reply as a node. -/
def toNode (r : Reply) : Node :=
  let body := match r.body with
    | .empty => []
    | .discoverer s => [s.toNode]
    | .lease l => [l.toNode]
    | .components p => [p.toNode]
    | .subscribed id => [.leaf "subscriptionId" id.text]
  .branch tag (.leaf "code" r.code.name :: body)

/-- Reads what a reply brings. -/
def bodyOf (n : Node) : Except DecodeError ReplyBody :=
  match n.child? Summary.tag, n.child? Lease.tag, n.child? Page.tag,
    n.valueOf? "subscriptionId" with
  | some s, _, _, _ => (Summary.ofNode s).map .discoverer
  | none, some l, _, _ => (Lease.ofNode l).map .lease
  | none, none, some p, _ => (Page.ofNode p).map .components
  | none, none, none, some raw =>
    match SubscriptionId.ofText? raw with
    | some id => .ok (.subscribed id)
    | none => .error (.invalidValue "reply.subscriptionId" raw)
  | none, none, none, none => .ok .empty

/-- Reads a reply. -/
def ofNode (n : Node) : Except DecodeError Reply := do
  n.expectName tag
  let code ← ReplyCode.ofText (← n.requireValue "code")
  return { code, body := ← bodyOf n }

end Reply

end Rendezvous
