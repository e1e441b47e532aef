import Rendezvous.Query.Codec
import Rendezvous.Service.Mediator
/-!
# Requests

What the service can be asked. A request names the service that it is for, which a lookup may leave
out, and has one body; of several the first counts. A query may be missing, which is told apart from
one that cannot be read.
-/

namespace Rendezvous

/-- Who looks for a service. -/
structure LookupRequest where
  caller : ComponentId
  hostname : String
  hostAddress : String
  port : UInt16
deriving DecidableEq, Inhabited

/-- What the service is asked. -/
inductive RequestBody
  | lookUp (r : LookupRequest)
  | register (c : Component) (lease : Option Lease)
  | unregister (id : ComponentId)
  | update (id : ComponentId) (delta : Attributes) (mode : UpdateMode) (lease : Option Lease)
  | query (q : Option Query) (pageSize : Option Nat)
  | queryNext (cursor : String)
  | subscribe (r : SubscribeRequest)
  | unsubscribe (id : SubscriptionId)
  | renewLease (id : ComponentId) (lease : Lease)

/-- A request to a service. -/
structure Request where
  target : Option ComponentId
  body : RequestBody

namespace RequestBody

/-- The name of the node that carries the body. -/
def tag : RequestBody → String
  | lookUp _ => "lookupDiscoverer"
  | register _ _ => "register"
  | unregister _ => "unregister"
  | update _ _ _ _ => "update"
  | query _ _ => "query"
  | queryNext _ => "queryNext"
  | subscribe _ => "subscribe"
  | unsubscribe _ => "unsubscribe"
  | renewLease _ _ => "renewLease"

/-- The query under a node. -/
def predicateOf (n : Node) : Except ServiceError (Option Query) :=
  match (n.child? "predicate").bind fun p => p.children.head? with
  | some tree =>
    match Query.decode tree with
    | .ok q => .ok (some q)
    | .error e => .error (.invalidQuery e)
  | none => .ok none

/-- The node above a query. -/
def predicateToNodes (q : Option Query) : List Node :=
  match q with
  | some q => [.branch "predicate" [q.toNode]]
  | none => []

/-- A field that cannot be read, as a failure of the service. -/
def field {α : Type} (result : Except DecodeError α) : Except ServiceError α :=
  result.mapError .invalidData

/-- Reads a name of a component. -/
def idOf (n : Node) : Except ServiceError ComponentId :=
  (field (n.requireValue "id")).map ComponentId.mk

/-- Reads a lookup. -/
def lookUpOf (n : Node) : Except ServiceError RequestBody := do
  let caller ← idOf n
  let hostAddress ← field (n.requireValue "hostAddress")
  let port ← field (n.parse "port" Text.word16?)
  return lookUp { caller, hostname := (n.valueOf? "hostname").getD "", hostAddress, port }

/-- Reads a registration. -/
def registerOf (n : Node) : Except ServiceError RequestBody := do
  let c ← field (Component.ofNode (← field (n.requireChild Component.tag)))
  return register c (← field (Lease.childOf n))

/-- Reads an update. -/
def updateOf (n : Node) : Except ServiceError RequestBody := do
  let id ← idOf n
  let delta ← field (Component.attributesOf n "nonConstantAttributes")
  let mode ← match n.valueOf? "mode" with
    | some raw => field (UpdateMode.ofText raw)
    | none => .ok .add
  return update id delta mode (← field (Lease.childOf n))

/-- Reads a query. -/
def queryOf (n : Node) : Except ServiceError RequestBody := do
  let q ← predicateOf n
  return query q (← field (n.parseOptional "pageSize" Text.word64?))

/-- Reads a subscription. -/
def subscribeOf (n : Node) : Except ServiceError RequestBody := do
  let subscriber ← idOf n
  let host ← field (n.requireValue "hostAddress")
  let port ← field (n.parse "port" Text.word16?)
  let callback ← field (n.requireValue "callback")
  let full ← field (n.parseOptional "full" Text.truth?)
  let query ← predicateOf n
  return subscribe { subscriber, target := ⟨host, port⟩, callback, full := full.getD false, query }

/-- Reads the end of a subscription. -/
def unsubscribeOf (n : Node) : Except ServiceError RequestBody := do
  let raw ← field (n.requireValue "subscriptionId")
  match SubscriptionId.ofText? raw with
  | some id => return unsubscribe id
  | none => throw (.invalidData (.invalidValue "unsubscribe.subscriptionId" raw))

/-- Reads a renewal. -/
def renewLeaseOf (n : Node) : Except ServiceError RequestBody := do
  let id ← idOf n
  return renewLease id (← field (Lease.ofNode (← field (n.requireChild Lease.tag))))

/-- Reads a body. -/
def ofNode (n : Node) : Except ServiceError RequestBody :=
  if n.name = "lookupDiscoverer" then lookUpOf n
  else if n.name = "register" then registerOf n
  else if n.name = "unregister" then (idOf n).map unregister
  else if n.name = "update" then updateOf n
  else if n.name = "query" then queryOf n
  else if n.name = "queryNext" then (field (n.requireValue "cursor")).map queryNext
  else if n.name = "subscribe" then subscribeOf n
  else if n.name = "unsubscribe" then unsubscribeOf n
  else if n.name = "renewLease" then renewLeaseOf n
  else .error (.invalidData (.unknownVariant "request" n.name))

/-- A lease as a node, if there is one. -/
def leaseToNodes (lease : Option Lease) : List Node :=
  match lease with
  | some l => [l.toNode]
  | none => []

/-- The fields of a body. -/
def fields : RequestBody → List Node
  | lookUp r =>
    [.leaf "id" r.caller.text, .leaf "hostname" r.hostname, .leaf "hostAddress" r.hostAddress,
      .leaf "port" (Text.ofNat r.port.toNat)]
  | register c lease => c.toNode :: leaseToNodes lease
  | unregister id => [.leaf "id" id.text]
  | update id delta mode lease =>
    .leaf "id" id.text :: .leaf "mode" mode.name ::
      Attributes.toNode "nonConstantAttributes" delta :: leaseToNodes lease
  | query q pageSize =>
    predicateToNodes q ++
      match pageSize with
      | some size => [.leaf "pageSize" (Text.ofNat size)]
      | none => []
  | queryNext cursor => [.leaf "cursor" cursor]
  | subscribe r =>
    [.leaf "id" r.subscriber.text, .leaf "hostAddress" r.target.host,
      .leaf "port" (Text.ofNat r.target.port.toNat), .leaf "callback" r.callback,
      .leaf "full" (Text.ofBool r.full)] ++ predicateToNodes r.query
  | unsubscribe id => [.leaf "subscriptionId" id.text]
  | renewLease id lease => [.leaf "id" id.text, lease.toNode]

/-- The body as a node. -/
def toNode (b : RequestBody) : Node := .branch b.tag b.fields

end RequestBody

namespace Request

/-- The name of the nodes that carry requests. -/
def tag : String := "request"

/-- A request that names no service. -/
def untargeted (body : RequestBody) : Request := ⟨none, body⟩

/-- The request as a node. -/
def toNode (r : Request) : Node :=
  let target := match r.target with
    | some id => [Node.leaf "target" id.text]
    | none => []
  .branch tag (target ++ [r.body.toNode])

/-- Reads a request. -/
def ofNode (n : Node) : Except ServiceError Request := do
  RequestBody.field (n.expectName tag)
  -- The body is the first child that does not name the service.
  match n.children.find? fun c => c.name ≠ "target" with
  | none => throw (.invalidData (.missingField "request.body"))
  | some child =>
    let body ← RequestBody.ofNode child
    return { target := (n.valueOf? "target").map ComponentId.mk, body }

end Request

end Rendezvous
