import Rendezvous.Net.Endpoint
import Rendezvous.Time.Duration
/-!
# Failures of delivery

Why a message has no reply.
-/

namespace Rendezvous

/-- Why a message has no reply. -/
inductive TransportError
  | unreachable (endpoint : Endpoint)
  /-- Nothing came for this long. -/
  | timeout (wait : Duration)
  /-- The connection ended before a reply. -/
  | closed (endpoint : Endpoint)
  | io (reason : String)
  /-- What came is no message. -/
  | codec (reason : String)
  /-- What came is longer than this many bytes. -/
  | messageTooLarge (limit : Nat)
  | invalidEndpoint (text : String)
  /-- Nobody answered any of this many lookups. -/
  | lookupExhausted (attempts : Nat)
deriving DecidableEq, Inhabited

namespace TransportError

/-- The name of the kind of failure. -/
def name : TransportError → String
  | unreachable _ => "Unreachable"
  | timeout _ => "Timeout"
  | closed _ => "Closed"
  | io _ => "Io"
  | codec _ => "Codec"
  | messageTooLarge _ => "MessageTooLarge"
  | invalidEndpoint _ => "InvalidEndpoint"
  | lookupExhausted _ => "LookupExhausted"

/-- The failure in words. -/
def message : TransportError → String
  | unreachable endpoint => "Endpoint unreachable: " ++ endpoint.text
  | timeout wait => "No reply within " ++ wait.text
  | closed endpoint => "Connection closed by " ++ endpoint.text ++ " before a reply"
  | io reason => "I/O error: " ++ reason
  | codec reason => "Codec error: " ++ reason
  | messageTooLarge limit => "Message exceeds " ++ Text.ofNat limit ++ " bytes"
  | invalidEndpoint text => "Invalid endpoint: " ++ text
  | lookupExhausted attempts =>
    "No discoverer answered after " ++ Text.ofNat attempts ++ " attempts"

end TransportError

/-- The reply to a message, or why there is none. -/
abbrev Delivery := Except TransportError Node

end Rendezvous
