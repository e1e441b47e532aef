import Rendezvous.Component.Json
import Rendezvous.Lease.Settings
import Rendezvous.Transport.Settings
/-!
# Settings of the service

Who the service is, what leases it grants, how it sends and how much it keeps.
-/

namespace Rendezvous

/-- What the service is set up with. -/
structure MediatorSettings where
  /-- The name of the service, by which messages address it. -/
  id : String := "discoverer"
  classname : String := "ctx.Discoverer"
  hostname : String := "localhost"
  hostAddress : String := "127.0.0.1"
  port : UInt16 := 5555
  version : String := "0.1.0"
  lease : LeaseSettings := {}
  dispatch : DispatchSettings := {}
  /-- The size of pages of queries that ask for none; zero for no pages. -/
  defaultPageSize : Nat := 0
  /-- How many cursors are kept. -/
  maxCursors : Nat := 128
  /-- Where the registrations are kept, if they are. -/
  logPath : Option String := none
deriving DecidableEq, Inhabited

namespace MediatorSettings

/-- What the service tells of itself. -/
def component (s : MediatorSettings) : Component where
  id := ⟨s.id⟩
  classname := s.classname
  hostname := s.hostname
  hostAddress := s.hostAddress
  port := s.port
  kind := .discoverer
  version := s.version

/-- The fields in order. -/
def fieldNames : List String :=
  ["id", "classname", "hostname", "host_address", "port", "version", "lease", "dispatch",
    "default_page_size", "max_cursors", "log_path"]

/-- The settings as an object. -/
def toJson (s : MediatorSettings) : Json :=
  .object [("id", .string s.id), ("classname", .string s.classname),
    ("hostname", .string s.hostname), ("host_address", .string s.hostAddress),
    ("port", portToJson s.port), ("version", .string s.version), ("lease", s.lease.toJson),
    ("dispatch", s.dispatch.toJson), ("default_page_size", Json.natural s.defaultPageSize),
    ("max_cursors", Json.natural s.maxCursors), ("log_path", Json.orNull .string s.logPath)]

/-- Reads settings, each of which has its default. -/
def decoder (leaves : Json.Leaves) : Json.Decoder MediatorSettings := fun depth j => do
  let base : MediatorSettings := {}
  let count := leaves.natural UInt64.size
  let port : Json.Decoder UInt16 := fun depth j =>
    (leaves.natural 65536 depth j).map Nat.toUInt16
  let r ← leaves.record? fieldNames depth j
  let id ← r.defaulted "id" base.id leaves.text
  let classname ← r.defaulted "classname" base.classname leaves.text
  let hostname ← r.defaulted "hostname" base.hostname leaves.text
  let hostAddress ← r.defaulted "host_address" base.hostAddress leaves.text
  let port ← r.defaulted "port" base.port port
  let version ← r.defaulted "version" base.version leaves.text
  let lease ← r.defaulted "lease" base.lease (LeaseSettings.decoder leaves)
  let dispatch ← r.defaulted "dispatch" base.dispatch (DispatchSettings.decoder leaves)
  let defaultPageSize ← r.defaulted "default_page_size" base.defaultPageSize count
  let maxCursors ← r.defaulted "max_cursors" base.maxCursors count
  let logPath ← r.defaulted "log_path" base.logPath (Json.asOption leaves.text)
  some { id, classname, hostname, hostAddress, port, version, lease, dispatch, defaultPageSize,
         maxCursors, logPath }

end MediatorSettings

end Rendezvous
