import Rendezvous.Collection.Dict
import Rendezvous.Service.Error
/-!
# Paged results

A query that finds more than fits on a page leaves the rest behind a cursor, from which it is
fetched page by page. The rest is what was found when the query ran, whatever happens since. Only so
many cursors are kept: one more makes the one that was opened longest ago go.

Cursors are named by a supply of texts that is given from outside.
-/

namespace Rendezvous

/-- A part of what a query found. -/
structure Page where
  components : List Summary
  /-- The cursor behind which the rest is, if there is one. -/
  cursor : Option String
  /-- How many components are behind it. -/
  remaining : Nat
deriving DecidableEq, Inhabited

namespace Page

/-- Whether the page has no component. -/
def isEmpty (p : Page) : Bool := p.components.isEmpty

/-- A page that is all there is. -/
def whole (components : List Summary) : Page := ⟨components, none, 0⟩

/-- The name of the nodes that carry pages. -/
def tag : String := "components"

/-- The page as a node. -/
def toNode (p : Page) : Node :=
  let cursor := match p.cursor with
    | some c => [Node.leaf "cursor" c]
    | none => []
  .branch tag
    (p.components.map Summary.toNode ++ .leaf "remaining" (Text.ofNat p.remaining) :: cursor)

/-- Reads a page. -/
def ofNode (n : Node) : Except DecodeError Page := do
  n.expectName tag
  let components ← (n.childrenNamed Summary.tag).mapM Summary.ofNode
  let remaining ← n.parseOptional "remaining" Text.word64?
  return { components, cursor := n.valueOf? "cursor", remaining := remaining.getD 0 }

end Page

/-- What is left behind a cursor. -/
structure Pending where
  rest : List Summary
  pageSize : Nat
  /-- Which of all cursors ever opened this one is. -/
  serial : Nat
deriving DecidableEq, Inhabited

/-- The open cursors. -/
structure CursorTable where
  limit : Nat
  /-- The names of cursors in the order in which they are opened. -/
  names : Nat → String
  opened : Nat := 0
  cursors : Dict String Pending := ∅

namespace CursorTable

/-- A table without cursors. It keeps at least one. -/
def new (limit : Nat) (names : Nat → String) : CursorTable := { limit := max 1 limit, names }

/-- The number of open cursors. -/
def size (t : CursorTable) : Nat := t.cursors.size

/-- The cursor that was opened longest ago. -/
def oldest? (t : CursorTable) : Option (String × Pending) :=
  t.cursors.entries.foldl (fun found e =>
    match found with
    | some least => if e.2.serial < least.2.serial then some e else some least
    | none => some e) none

/-- Drops the oldest cursors, `count` at most, until there is room for one more. -/
def makeRoomWithin (t : CursorTable) : Nat → CursorTable
  | 0 => t
  | count + 1 =>
    if t.size < t.limit then t
    else
      match t.oldest? with
      | some e => makeRoomWithin { t with cursors := t.cursors.erase e.1 } count
      | none => t

/-- Drops the oldest cursors until there is room for one more. -/
def makeRoom (t : CursorTable) : CursorTable := t.makeRoomWithin t.size

/-- The first page of a result, and the rest behind a new cursor where there is one. A page size of
zero asks for everything at once. -/
def openPage (t : CursorTable) (results : List Summary) (pageSize : Nat) : Page × CursorTable :=
  if pageSize = 0 ∨ results.length ≤ pageSize then (.whole results, t)
  else
    -- Only a cursor that is opened makes an older one go.
    let t := t.makeRoom
    let name := t.names t.opened
    let rest := results.drop pageSize
    (⟨results.take pageSize, some name, rest.length⟩,
      { t with
        opened := t.opened + 1
        cursors := t.cursors.insert name ⟨rest, pageSize, t.opened⟩ })

/-- The next page behind a cursor, which closes when nothing is left. -/
def next (t : CursorTable) (cursor : String) : Except ServiceError (Page × CursorTable) :=
  match t.cursors.get? cursor with
  | none => .error (.queryNotFound cursor)
  | some pending =>
    let page := pending.rest.take pending.pageSize
    let rest := pending.rest.drop pending.pageSize
    if rest.isEmpty then .ok (.whole page, { t with cursors := t.cursors.erase cursor })
    else
      .ok (⟨page, some cursor, rest.length⟩,
        { t with cursors := t.cursors.insert cursor { pending with rest } })

/-- Closes a cursor, and tells whether it was open. -/
def close (t : CursorTable) (cursor : String) : Bool × CursorTable :=
  ((t.cursors.get? cursor).isSome, { t with cursors := t.cursors.erase cursor })

end CursorTable

end Rendezvous
