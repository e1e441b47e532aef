import Rendezvous.Component.Json
import Rendezvous.Time.Timestamp
/-!
# Journals

A journal keeps the registered components for the time after a restart. `Journal` is what the
service needs of one. `NoJournal` keeps nothing; a `RegistrationLog` keeps a file that it writes
anew with every change, so that the file is always a snapshot of all entries as they were at some
change.

A write that fails leaves the file as it was. The entries in memory have the change all the same, so
the next write that succeeds has it too.
-/

namespace Rendezvous

/-- Why a journal fails. -/
inductive JournalError
  /-- What is in the file is no snapshot. -/
  | serialization
  /-- The file cannot be read or written. -/
  | io
  | unsupportedVersion (found : Nat)
deriving DecidableEq, Inhabited, Repr

/-- The version of snapshots that are written, and the latest that are read. -/
def snapshotVersion : Nat := 1

/-- The error in words. -/
def JournalError.message : JournalError → String
  | serialization => "serialization error"
  | io => "I/O error"
  | unsupportedVersion found =>
    "unsupported log version " ++ Text.ofNat found ++ " (supported up to " ++
      Text.ofNat snapshotVersion ++ ")"

/-- A type of journals. -/
class Journal (J : Type) where
  /-- Notes a registration in place of the one of the same component. -/
  record : J → Component → Except JournalError Unit × J
  /-- Strikes a registration out, if there is one. -/
  forget : J → ComponentId → Except JournalError Unit × J
  /-- The registrations that are noted. -/
  load : J → Except JournalError (List Component)

/-- The journal that keeps nothing. -/
structure NoJournal where
deriving Inhabited

instance : Journal NoJournal where
  record j _ := (.ok (), j)
  forget j _ := (.ok (), j)
  load _ := .ok []

/-- A file, the number of times it was tried to write, and which of these fail. -/
structure Disk where
  content : Option String := none
  writes : Nat := 0
  fails : Nat → Bool := fun _ => false

/-- Puts a new content in place of the old, or fails and leaves it. -/
def Disk.write (d : Disk) (content : String) : Except JournalError Unit × Disk :=
  let counted := { d with writes := d.writes + 1 }
  if d.fails d.writes then (.error .io, counted)
  else (.ok (), { counted with content := some content })

/-- A registration that is noted and when it was. -/
structure LogEntry where
  registeredAt : Timestamp
  component : Component
deriving DecidableEq

namespace LogEntry

/-- The entry as an object. -/
def toJson (e : LogEntry) : Json :=
  .object [("registered_at", .string e.registeredAt.text), ("description", e.component.toJson)]

/-- Reads a moment. -/
def momentOfJson? : Json.Decoder Timestamp := fun depth j =>
  (Json.asString depth j).bind Timestamp.ofText?

/-- Reads an entry. -/
def ofJson? : Json.Decoder LogEntry := fun depth j => do
  let r ← Json.record? ["registered_at", "description"] depth j
  let registeredAt ← r.required "registered_at" momentOfJson?
  let component ← r.required "description" Component.ofJson?
  some { registeredAt, component }

end LogEntry

/-- All entries at one moment, as they are in the file. -/
structure Snapshot where
  version : Nat
  savedAt : Timestamp
  entries : List LogEntry
deriving DecidableEq

namespace Snapshot

/-- The snapshot as the content of a file. -/
def text (s : Snapshot) : String :=
  String.ofList (Json.pretty (.object
    [("version", Json.natural s.version), ("saved_at", .string s.savedAt.text),
      ("components", .array (s.entries.map LogEntry.toJson))]))

/-- Reads a snapshot from a JSON value. -/
def ofJson? : Json.Decoder Snapshot := fun depth j => do
  let r ← Json.record? ["version", "saved_at", "components"] depth j
  let version ← r.required "version" (Json.asNatural UInt32.size)
  let savedAt ← r.required "saved_at" LogEntry.momentOfJson?
  let entries ← r.required "components" (Json.asList LogEntry.ofJson?)
  some { version, savedAt, entries }

/-- Reads the content of a file. -/
def ofText (s : String) : Except JournalError Snapshot :=
  match Json.decodeText? ofJson? s with
  | none => .error .serialization
  | some snapshot =>
    if snapshotVersion < snapshot.version then .error (.unsupportedVersion snapshot.version)
    else .ok snapshot

end Snapshot

/-- A journal in a file. -/
structure RegistrationLog where
  /-- The current moment, set from outside. -/
  clock : Timestamp
  entries : SortedMap ComponentId LogEntry
  disk : Disk

namespace RegistrationLog

/-- Opens the log in a file, which need not be there. Of entries for one component the last
counts. -/
def openOn (clock : Timestamp) (disk : Disk) : Except JournalError RegistrationLog :=
  match disk.content with
  | none => .ok ⟨clock, ∅, disk⟩
  | some content =>
    (Snapshot.ofText content).map fun s =>
      ⟨clock, SortedMap.ofList (s.entries.map fun e => (e.component.id, e)), disk⟩

/-- The snapshot of the current entries. -/
def snapshot (l : RegistrationLog) : Snapshot := ⟨snapshotVersion, l.clock, l.entries.values⟩

/-- Writes the current entries. -/
def save (l : RegistrationLog) : Except JournalError Unit × RegistrationLog :=
  let (result, disk) := l.disk.write l.snapshot.text
  (result, { l with disk })

/-- Notes a registration and writes. -/
def record (l : RegistrationLog) (c : Component) : Except JournalError Unit × RegistrationLog :=
  save { l with entries := l.entries.insert c.id ⟨l.clock, c⟩ }

/-- Strikes a registration out and, if there was one, writes. -/
def forget (l : RegistrationLog) (id : ComponentId) :
    Except JournalError Unit × RegistrationLog :=
  -- Without an entry nothing changes, and nothing is written.
  if l.entries.contains id then save { l with entries := l.entries.erase id } else (.ok (), l)

/-- The registrations that are noted, by name. -/
def components (l : RegistrationLog) : List Component := l.entries.values.map LogEntry.component

instance : Journal RegistrationLog where
  record := record
  forget := forget
  load l := .ok l.components

end RegistrationLog

end Rendezvous
