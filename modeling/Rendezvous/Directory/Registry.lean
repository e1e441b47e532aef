import Rendezvous.Directory.Basic
/-!
# The registry

A registry is a directory behind calls that can fail. A plan of faults says of every call by its
number whether it fails with a storage error; a call that fails changes nothing but the count.
Without faults the calls are the operations of the directory.
-/

namespace Rendezvous

/-- The calls of a registry. -/
inductive RegistryCall
  | add
  | remove
  | update
  | get
  | contains
  | search
deriving DecidableEq, Inhabited, Repr

namespace RegistryCall

/-- The word for a call. -/
def name : RegistryCall → String
  | add => "add"
  | remove => "remove"
  | update => "update"
  | get => "get"
  | contains => "contains"
  | search => "search"

end RegistryCall

/-- Which calls fail, by their number and kind, and the reasons they give. -/
abbrev FaultPlan := Nat → RegistryCall → Option String

/-- A directory, the number of calls so far and the faults. -/
structure Registry where
  directory : Directory := ∅
  calls : Nat := 0
  faults : FaultPlan := fun _ _ => none

namespace Registry

instance : Inhabited Registry := ⟨{}⟩

/-- What a registry call answers, and the registry after it. -/
abbrev Answer (α : Type) := Except DirectoryError α × Registry

/-- Makes a call that may change the directory. -/
def call {α : Type} (r : Registry) (kind : RegistryCall)
    (operation : Directory → Except DirectoryError (α × Directory)) : Answer α :=
  let counted := { r with calls := r.calls + 1 }
  match r.faults r.calls kind with
  | some reason => (.error (.storage reason), counted)
  | none =>
    match operation r.directory with
    | .ok (a, d) => (.ok a, { counted with directory := d })
    | .error e => (.error e, counted)

/-- Adds a component and answers with the one in whose place it is. -/
def add (r : Registry) (c : Component) : Answer (Option Component) :=
  r.call .add fun d => d.insert c

/-- Removes a component and answers with it. -/
def remove (r : Registry) (id : ComponentId) : Answer (Option Component) :=
  r.call .remove fun d => .ok (d.remove id)

/-- Updates a component and answers with the result. -/
def update (r : Registry) (id : ComponentId) (delta : Attributes) (mode : UpdateMode) :
    Answer Component :=
  r.call .update fun d => d.update id delta mode

/-- Answers with the component of a name. -/
def get (r : Registry) (id : ComponentId) : Answer (Option Component) :=
  r.call .get fun d => .ok (d.get? id, d)

/-- Answers whether a component is registered. -/
def contains (r : Registry) (id : ComponentId) : Answer Bool :=
  r.call .contains fun d => .ok (d.contains id, d)

/-- Answers with the components that a query is for. -/
def search (r : Registry) (q : Query) : Answer (List Component) :=
  r.call .search fun d => .ok (d.search q, d)

end Registry

end Rendezvous
