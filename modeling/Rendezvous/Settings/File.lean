import Rendezvous.Settings.Daemon
import Rendezvous.Settings.Layer
import Rendezvous.Toml.Document
/-!
# Settings files

The settings of a server are the defaults with what a file says laid over them. The file is in the
format that the end of its name tells; a file of another name says nothing.
-/

namespace Rendezvous

/-- The formats of settings files. -/
inductive FileFormat
  | toml
  | json
deriving DecidableEq

namespace FileFormat

/-- The format of a file, by what follows the last point in its name. -/
def ofName? (name : String) : Option FileFormat :=
  match (name.splitOn ".").tail.getLast? with
  | some "toml" => some toml
  | some "json" => some json
  | _ => none

end FileFormat

namespace Json

mutual

/-- A value as settings hold it, if it can be read and nests no deeper than allowed: a whole number
past the range of signed words becomes a double, and of members with one key the last counts. -/
def settled (depth : Nat) : Json → Option Json
  | unreadable => none
  | integer i => some (if Text.FitsInt64 i then integer i else real (Binary64.ofInt i))
  | array items =>
    match depth with
    | 0 => none
    | depth + 1 => (settledItems depth items).map array
  | object members =>
    match depth with
    | 0 => none
    | depth + 1 => (settledMembers depth members).map fun ms =>
      object (ms.foldl (fun done m => Dict.put m.1 m.2 done) [])
  | v => some v

/-- Items as settings hold them. -/
def settledItems (depth : Nat) : List Json → Option (List Json)
  | [] => some []
  | item :: items => do some ((← settled depth item) :: (← settledItems depth items))

/-- Members as settings hold them. -/
def settledMembers (depth : Nat) : List (String × Json) → Option (List (String × Json))
  | [] => some []
  | (key, v) :: members => do
    some ((key, ← settled depth v) :: (← settledMembers depth members))

end

/-- Whether a value is an object. -/
def isObject : Json → Bool
  | object _ => true
  | _ => false

end Json

/-- Reads the content of a file as an object. -/
def FileFormat.read (format : FileFormat) (content : String) : Option Json := do
  let v ← match format with
    | toml => Toml.ofText? content
    | json => (Json.ofText? content).bind (Json.settled Json.maxDepth)
  if v.isObject then some v else none

/-- Why a file makes no settings. -/
inductive FileError
  /-- It cannot be read, or gives a setting a value that cannot be read as one. -/
  | unreadable
  /-- It names an item before the first one of an array, or too far behind the last one. -/
  | noSuchItem
deriving DecidableEq, Inhabited

namespace DaemonSettings

/-- The settings with a layer over the defaults. -/
def withLayer (top : Json) : Except FileError DaemonSettings :=
  match Json.layer? (toJson {}) top with
  | none => .error .noSuchItem
  | some v =>
    match decoder Json.tolerantLeaves Json.maxDepth v with
    | some s => .ok s
    | none => .error .unreadable

/-- The settings that a file of a name and content makes. -/
def ofFile (name content : String) : Except FileError DaemonSettings :=
  match FileFormat.ofName? name with
  | none => .ok {}
  | some format =>
    match format.read content with
    | some top => withLayer top
    | none => .error .unreadable

end DaemonSettings

end Rendezvous
