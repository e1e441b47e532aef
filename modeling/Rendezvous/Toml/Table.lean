import Rendezvous.Collection.Dict
import Rendezvous.Json.Basic
/-!
# Tables in TOML

A table is written piece by piece: under a header of its own, as part of the path of a longer header
or of a key with points, or as one of several tables under the same header. How a table came to be
says how it can be added to: nothing is given twice, a table under a header gets nothing from keys
with points elsewhere, and a table that such keys made gets no header.
-/

namespace Rendezvous.Toml

/-- How a table came to be. -/
inductive Origin
  /-- Under a header, or between braces. -/
  | header
  /-- On the path of a header. -/
  | implied
  /-- On the path of a key with points. -/
  | dotted
deriving DecidableEq

/-- What stands under a key. -/
inductive Entry
  | value (v : Json)
  | table (origin : Origin) (members : List (String × Entry))
  /-- Tables under one header, the last one first. -/
  | tables (rows : List (List (String × Entry)))

/-- The members of a table. -/
abbrev Members := List (String × Entry)

namespace Members

/-- Changes the table at the end of a path, of several tables under one header the last one. Tables
that are missing on the path are made. -/
def modifyAt (made : Origin) (change : Origin → Members → Option Members) (origin : Origin) :
    List String → Members → Option Members
  | [], members => change origin members
  | key :: path, members =>
    match Dict.find? key members with
    | none => (modifyAt made change made path []).map fun inner =>
      Dict.put key (.table made inner) members
    | some (.value _) | some (.tables []) => none
    | some (.tables (row :: rows)) => (modifyAt made change .header path row).map fun row =>
      Dict.put key (.tables (row :: rows)) members
    | some (.table old inner) =>
      -- A key with points does not reach into a table that has a header.
      if made = .dotted ∧ old = .header then none
      else (modifyAt made change old path inner).map fun inner =>
        Dict.put key (.table old inner) members

/-- Gives a key with points a value, in the table at the end of its path. That table was made by
such keys too, unless there is no path. -/
def assign (path : List String) (key : String) (v : Json) (origin : Origin) (members : Members) :
    Option Members :=
  modifyAt .dotted (fun last inner =>
    if (last = .dotted ↔ path = []) ∨ (Dict.find? key inner).isSome then none
    else some (Dict.put key (.value v) inner)) origin path members

/-- Begins the table under a header. -/
def beginTable (path : List String) (key : String) (members : Members) : Option Members :=
  modifyAt .implied (fun _ inner =>
    match Dict.find? key inner with
    | none => some (Dict.put key (.table .header []) inner)
    -- A table that was only on the path of a header may still get its own, and is last then.
    | some (.table .implied old) =>
      some (inner.filter (fun e => e.1 ≠ key) ++ [(key, .table .header old)])
    | some _ => none) .header path members

/-- Begins one more table under a header. -/
def beginRow (path : List String) (key : String) (members : Members) : Option Members :=
  modifyAt .implied (fun _ inner =>
    match Dict.find? key inner with
    | none => some (Dict.put key (.tables [[]]) inner)
    | some (.tables rows) => some (Dict.put key (.tables ([] :: rows)) inner)
    | some _ => none) .header path members

end Members

mutual

/-- What stands under a key as a JSON value. -/
def Entry.toJson : Entry → Json
  | .value v => v
  | .table _ members => .object (membersToJson members)
  | .tables rows => .array (rowsToJson rows).reverse

/-- The members of a table as those of an object. -/
def membersToJson : List (String × Entry) → List (String × Json)
  | [] => []
  | (key, e) :: members => (key, e.toJson) :: membersToJson members

/-- Tables as objects. -/
def rowsToJson : List (List (String × Entry)) → List Json
  | [] => []
  | row :: rows => .object (membersToJson row) :: rowsToJson rows

end

end Rendezvous.Toml
