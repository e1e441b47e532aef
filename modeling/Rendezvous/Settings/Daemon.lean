import Rendezvous.Service.Settings
/-!
# Settings of a server

All that a server is set up with: where it listens, what its service is like and how it sends.
-/

namespace Rendezvous

/-- Where a server listens. -/
structure ServerSettings where
  listenAddress : Net.SocketAddress := .v4 ⟨[0, 0, 0, 0]⟩ 5555
  /-- Whether lookups to the multicast group are answered. -/
  multicastEnabled : Bool := true
deriving DecidableEq

namespace ServerSettings

/-- The fields in order. -/
def fieldNames : List String := ["listen_addr", "multicast_enabled"]

/-- The settings as an object. -/
def toJson (s : ServerSettings) : Json :=
  .object [("listen_addr", .string s.listenAddress.text),
    ("multicast_enabled", .bool s.multicastEnabled)]

/-- Reads settings, each of which has its default. -/
def decoder (leaves : Json.Leaves) : Json.Decoder ServerSettings := fun depth j => do
  let base : ServerSettings := {}
  let address : Json.Decoder Net.SocketAddress := fun depth j =>
    (leaves.text depth j).bind Net.SocketAddress.ofText?
  let r ← leaves.record? fieldNames depth j
  let listenAddress ← r.defaulted "listen_addr" base.listenAddress address
  let multicastEnabled ← r.defaulted "multicast_enabled" base.multicastEnabled leaves.flag
  some { listenAddress, multicastEnabled }

end ServerSettings

/-- All settings of a server. -/
structure DaemonSettings where
  server : ServerSettings := {}
  discovery : MediatorSettings := {}
  transport : ConnectionSettings := {}
deriving DecidableEq

namespace DaemonSettings

/-- The settings with another address to listen on, which is told to others too unless it is the one
that stands for any. -/
def listenOn (s : DaemonSettings) (address : Net.SocketAddress) : DaemonSettings :=
  -- Nobody can be told to come to the address that stands for any.
  let host := if address.isUnspecified then s.discovery.hostAddress else address.hostText
  { s with
    server := { s.server with listenAddress := address }
    discovery := { s.discovery with port := address.port.toUInt16, hostAddress := host } }

/-- The fields in order. -/
def fieldNames : List String := ["server", "discovery", "transport"]

/-- The settings as an object. -/
def toJson (s : DaemonSettings) : Json :=
  .object [("server", s.server.toJson), ("discovery", s.discovery.toJson),
    ("transport", s.transport.toJson)]

/-- Reads settings, each of which has its default. -/
def decoder (leaves : Json.Leaves) : Json.Decoder DaemonSettings := fun depth j => do
  let base : DaemonSettings := {}
  let r ← leaves.record? fieldNames depth j
  let server ← r.defaulted "server" base.server (ServerSettings.decoder leaves)
  let discovery ← r.defaulted "discovery" base.discovery (MediatorSettings.decoder leaves)
  let transport ← r.defaulted "transport" base.transport (ConnectionSettings.decoder leaves)
  some { server, discovery, transport }

end DaemonSettings

end Rendezvous
