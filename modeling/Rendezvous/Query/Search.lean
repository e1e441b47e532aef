import Rendezvous.Query.Basic
/-!
# Searching

A query over a whole collection of components is answered from an index, which knows for every rule
the components of which it holds. The nodes above combine sets of identifiers, so no description is
looked at.
-/

namespace Rendezvous

/-- What a search needs to know of a collection of components. -/
structure Index where
  /-- The components in the collection. -/
  allIds : SortedSet ComponentId
  /-- The components of which a rule holds. -/
  select : Rule → SortedSet ComponentId

namespace Query

mutual

/-- The components that the query is for. -/
def search (index : Index) : Query → SortedSet ComponentId
  | rule r => index.select r
  | all [] => index.allIds
  | all (q :: qs) => narrow index (search index q) qs
  | any qs => widen index ∅ qs
  | not q => index.allIds.diff (search index q)
  | noneOf qs => index.allIds.diff (widen index ∅ qs)

/-- Those of the found components that all queries are for; once there are none, no further query is
looked at. -/
def narrow (index : Index) (found : SortedSet ComponentId) : List Query → SortedSet ComponentId
  | [] => found
  | q :: qs => if found.isEmpty then found else narrow index (found.inter (search index q)) qs

/-- The found components and those that one of the queries is for. -/
def widen (index : Index) (found : SortedSet ComponentId) : List Query → SortedSet ComponentId
  | [] => found
  | q :: qs => widen index (found.union (search index q)) qs

end

end Query

end Rendezvous
