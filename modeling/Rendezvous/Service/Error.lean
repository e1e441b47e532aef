import Rendezvous.Directory.Registry
import Rendezvous.Lease.Handshake
import Rendezvous.Message.ReplyCode
/-!
# Failures of the service

Why the service does not do what it is asked, and the code with which it says so.
-/

namespace Rendezvous

/-- Why the service does not do what it is asked. -/
inductive ServiceError
  | invalidId (expected found : ComponentId)
  | invalidData (error : DecodeError)
  | invalidAttribute (reason : String)
  | invalidQuery (error : QueryError)
  | emptyQuery
  | unknownComponent (id : ComponentId)
  | unknownSubscriber (id : SubscriptionId)
  | unknownCallback (name : String)
  | queryNotFound (cursor : String)
  | transport (error : TransportError)
  | log (reason : String)
deriving DecidableEq, Inhabited

namespace ServiceError

/-- The name of the kind of failure. -/
def name : ServiceError → String
  | invalidId _ _ => "InvalidId"
  | invalidData _ => "InvalidData"
  | invalidAttribute _ => "InvalidAttribute"
  | invalidQuery _ => "InvalidQuery"
  | emptyQuery => "EmptyQuery"
  | unknownComponent _ => "UnknownComponent"
  | unknownSubscriber _ => "UnknownSubscriber"
  | unknownCallback _ => "UnknownCallback"
  | queryNotFound _ => "QueryNotFound"
  | transport _ => "Transport"
  | log _ => "Log"

/-- The failure in words. -/
def message : ServiceError → String
  | invalidId expected found =>
    "Message addressed to " ++ found.text ++ ", this discoverer is " ++ expected.text
  | invalidData error => "Invalid data: " ++ error.message
  | invalidAttribute reason => "Invalid attribute: " ++ reason
  | invalidQuery error => "Invalid query: " ++ error.message
  | emptyQuery => "Message carries no query"
  | unknownComponent id => "Unknown component: " ++ id.text
  | unknownSubscriber id => "Unknown subscription: " ++ id.text
  | unknownCallback name => "Unknown callback: " ++ name
  | queryNotFound cursor => "Unknown query cursor: " ++ cursor
  | transport error => "Transport error: " ++ error.message
  | log reason => "Discovery log error: " ++ reason

/-- The code of a reply that reports the failure. -/
def code : ServiceError → ReplyCode
  | invalidId _ _ => .invalidId
  | invalidData _ => .invalidData
  | invalidAttribute _ => .invalidAttribute
  | invalidQuery _ => .invalidQuery
  | emptyQuery => .emptyQuery
  | unknownComponent _ => .unknownComponent
  | unknownSubscriber _ => .unknownSubscriber
  | unknownCallback _ => .unknownCallback
  | queryNotFound _ => .queryNotFound
  | transport _ | log _ => .ioError

/-- A failure of the directory as one of the service. -/
def ofDirectory : DirectoryError → ServiceError
  | .componentNotFound id => unknownComponent id
  | .constantAttribute id name =>
    invalidAttribute (DirectoryError.constantAttribute id name).message
  | .invalidDescription reason => invalidData (.invalidValue "component" reason)
  | .storage reason => log reason

end ServiceError

end Rendezvous
