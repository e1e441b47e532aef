import Rendezvous.Collection.Dict
import Rendezvous.Query.Search
/-!
# The directory of components

The registered components by name, and an index of them (`Directory.postings`): for each selector a
`Shelf` of the values that it finds somewhere, and for each of these a `Bucket` of the components
where it finds it. Every change of a component takes it out of the buckets of its old description
and puts it into those of the new one, and a bucket that nobody is left in goes too.
`Directory.select` answers a rule from the postings alone.
-/

namespace Rendezvous

/-- Why the directory refuses an operation. -/
inductive DirectoryError
  | componentNotFound (id : ComponentId)
  | constantAttribute (id : ComponentId) (name : String)
  | invalidDescription (reason : String)
  | storage (reason : String)
deriving DecidableEq, Inhabited, Repr

namespace DirectoryError

/-- The name of the kind of error. -/
def name : DirectoryError → String
  | componentNotFound _ => "ComponentNotFound"
  | constantAttribute _ _ => "ConstantAttribute"
  | invalidDescription _ => "InvalidDescription"
  | storage _ => "Storage"

/-- The error in words. -/
def message : DirectoryError → String
  | componentNotFound id => "Component not found: " ++ id.text
  | constantAttribute id name =>
    "Attribute '" ++ name ++ "' of " ++ id.text ++ " is constant and cannot be updated"
  | invalidDescription reason => "Invalid description: " ++ reason
  | storage reason => "Storage error: " ++ reason

end DirectoryError

/-- A value as it is looked up. Doubles are told apart by their bits. -/
inductive ValueKey
  | text (s : String)
  | integer (i : Int64)
  | bits (n : Nat)
  | truth (b : Bool)
deriving DecidableEq

/-- The key of a value. -/
def Value.key : Value → ValueKey
  | .string s => .text s
  | .integer i => .integer i
  | .float x => .bits x.bits
  | .boolean b => .truth b

/-- A value and the components in which it is found. -/
structure Bucket where
  value : Value
  ids : SortedSet ComponentId

/-- The values that one selector finds: each in a bucket under its own key, and none in a bucket
without components. -/
structure Shelf where
  buckets : Dict ValueKey Bucket
  keyed : ∀ k b, buckets.get? k = some b → b.value.key = k
  filled : ∀ k b, buckets.get? k = some b → b.ids.isEmpty = false

namespace Shelf

instance : EmptyCollection Shelf := ⟨⟨∅, fun _ _ h => (by cases h), fun _ _ h => (by cases h)⟩⟩

/-- Whether no value is found. -/
def isEmpty (s : Shelf) : Bool := s.buckets.entries.isEmpty

/-- The components in which a value is found. -/
def holders (s : Shelf) (v : Value) : SortedSet ComponentId :=
  match s.buckets.get? v.key with
  | some b => b.ids
  | none => ∅

/-- Puts a bucket in place of that of its value. -/
def put (s : Shelf) (b : Bucket) (filled : b.ids.isEmpty = false) : Shelf where
  buckets := s.buckets.insert b.value.key b
  keyed k b' h := by
    rw [Dict.get?_insert] at h
    split at h
    · next hk =>
      cases h
      exact hk.symm
    · exact s.keyed k b' h
  filled k b' h := by
    rw [Dict.get?_insert] at h
    split at h
    · cases h
      exact filled
    · exact s.filled k b' h

/-- Takes a bucket away. -/
def drop (s : Shelf) (k : ValueKey) : Shelf where
  buckets := s.buckets.erase k
  keyed k' b h := by
    rw [Dict.get?_erase] at h
    split at h
    · cases h
    · exact s.keyed k' b h
  filled k' b h := by
    rw [Dict.get?_erase] at h
    split at h
    · cases h
    · exact s.filled k' b h

/-- Adds a component in which a value is found. -/
def add (id : ComponentId) (s : Shelf) (v : Value) : Shelf :=
  let b := (s.buckets.get? v.key).getD ⟨v, ∅⟩
  s.put { b with ids := b.ids.add id } (b.ids.isEmpty_insert id ())

/-- Takes a component away in which a value was found, and the bucket with it if nobody is left. -/
def remove (id : ComponentId) (s : Shelf) (v : Value) : Shelf :=
  match s.buckets.get? v.key with
  | none => s
  | some b =>
    if h : (b.ids.erase id).isEmpty = false then s.put { b with ids := b.ids.erase id } h
    else s.drop v.key

/-- The components in which a value is found of which the rule holds. -/
def matching (s : Shelf) (r : Rule) : SortedSet ComponentId :=
  (s.buckets.entries.filter fun e => r.comparison.evaluate e.2.value r.operand = .holds).foldl
    (fun found e => found.union e.2.ids) ∅

end Shelf

/-- For each selector the values that it finds. The shelf of an attribute goes when it is empty,
that of a field stays. -/
structure Postings where
  fieldShelves : Dict Selector Shelf
  attributeShelves : Dict String Shelf
  callbackShelf : Shelf
  serviceShelf : Shelf

namespace Postings

instance : EmptyCollection Postings := ⟨⟨∅, ∅, ∅, ∅⟩⟩

/-- The selectors that find a value in every component. -/
def fields : List Selector := [.id, .kind, .classname, .hostname, .hostAddress, .port, .version]

/-- What a component is indexed under: each field, each attribute with a value, each name that it
offers. -/
def keysOf (c : Component) : List (Selector × Value) :=
  fields.filterMap (fun s =>
    match s.resolve c with
    | .value v => some (s, v)
    | _ => none) ++
  c.resolved.filterMap (fun a => a.value.map fun v => (.attribute a.name, v)) ++
  c.callbacks.members.map (fun n => (.callback, .string n)) ++
  c.services.members.map (fun n => (.service, .string n))

/-- The values that a selector finds. -/
def shelf (p : Postings) : Selector → Shelf
  | .callback => p.callbackShelf
  | .service => p.serviceShelf
  | .attribute n => (p.attributeShelves.get? n).getD ∅
  | s => (p.fieldShelves.get? s).getD ∅

/-- The components under a key. -/
def holders (p : Postings) (key : Selector × Value) : SortedSet ComponentId :=
  (p.shelf key.1).holders key.2

/-- Adds a component under a key. -/
def add (id : ComponentId) (p : Postings) (key : Selector × Value) : Postings :=
  let shelf := (p.shelf key.1).add id key.2
  match key.1 with
  | .callback => { p with callbackShelf := shelf }
  | .service => { p with serviceShelf := shelf }
  | .attribute n => { p with attributeShelves := p.attributeShelves.insert n shelf }
  | s => { p with fieldShelves := p.fieldShelves.insert s shelf }

/-- Takes a component away from under a key. -/
def remove (id : ComponentId) (p : Postings) (key : Selector × Value) : Postings :=
  let shelf := (p.shelf key.1).remove id key.2
  match key.1 with
  | .callback => { p with callbackShelf := shelf }
  | .service => { p with serviceShelf := shelf }
  | .attribute n =>
    if shelf.isEmpty then { p with attributeShelves := p.attributeShelves.erase n }
    else { p with attributeShelves := p.attributeShelves.insert n shelf }
  | s =>
    match p.fieldShelves.get? s with
    | none => p
    | some _ => { p with fieldShelves := p.fieldShelves.insert s shelf }

/-- Adds a component under all its keys. -/
def addAll (p : Postings) (c : Component) : Postings := (keysOf c).foldl (add c.id) p

/-- Takes a component away from under all its keys. -/
def removeAll (p : Postings) (c : Component) : Postings := (keysOf c).foldl (remove c.id) p

/-- The components under a selector and a value of which the rule holds. -/
def matching (p : Postings) (r : Rule) : SortedSet ComponentId := (p.shelf r.selector).matching r

end Postings

/-- The registered components and their index. -/
structure Directory where
  components : SortedMap ComponentId Component := ∅
  postings : Postings := ∅

namespace Directory

instance : EmptyCollection Directory := ⟨⟨∅, ∅⟩⟩

instance : Inhabited Directory := ⟨∅⟩

/-- The component of a name. -/
def get? (d : Directory) (id : ComponentId) : Option Component := d.components.get? id

/-- Whether a component is registered. -/
def contains (d : Directory) (id : ComponentId) : Bool := d.components.contains id

/-- The number of components. -/
def size (d : Directory) : Nat := d.components.size

/-- The components by name. -/
def list (d : Directory) : List Component := d.components.values

/-- The names of the components. -/
def allIds (d : Directory) : SortedSet ComponentId := SortedSet.ofList d.components.keys

/-- The directory without a component, and the component if there was one. -/
def remove (d : Directory) (id : ComponentId) : Option Component × Directory :=
  match d.get? id with
  | none => (none, d)
  | some c => (some c, ⟨d.components.erase id, d.postings.removeAll c⟩)

/-- The directory with a component of which there is none of its name. -/
def place (d : Directory) (c : Component) : Directory :=
  ⟨d.components.insert c.id c, d.postings.addAll c⟩

/-- Adds a component in place of the one of its name, which is returned. -/
def insert (d : Directory) (c : Component) :
    Except DirectoryError (Option Component × Directory) :=
  if c.id.isBlank then .error (.invalidDescription "component id must not be empty")
  else
    -- The postings of the old description go before those of the new one come.
    let (previous, rest) := d.remove c.id
    .ok (previous, rest.place c)

/-- Updates the non-constant attributes of a component. A constant attribute of the name of one of
them prevents it. -/
def update (d : Directory) (id : ComponentId) (delta : Attributes) (mode : UpdateMode) :
    Except DirectoryError (Component × Directory) :=
  match d.get? id with
  | none => .error (.componentNotFound id)
  | some c =>
    match delta.values.find? fun a => c.constant.contains a.name with
    | some a => .error (.constantAttribute id a.name)
    | none =>
      let updated := c.update delta mode
      .ok (updated, (d.remove id).2.place updated)

/-- The components that offer the name that the rule asks for, or those that do not. -/
def selectMembers (d : Directory) (r : Rule) : SortedSet ComponentId :=
  match r.operand.asString?, r.comparison with
  | some _, .equal => d.postings.holders (r.selector, r.operand)
  | some _, .different => d.allIds.diff (d.postings.holders (r.selector, r.operand))
  | _, _ => ∅

/-- The components of which a rule holds. A text or a truth value is equal to itself alone, so for
equality one posting has them all; otherwise all values under the selector are compared. -/
def select (d : Directory) (r : Rule) : SortedSet ComponentId :=
  match r.selector, r.comparison, r.operand with
  | .callback, _, _ | .service, _, _ => d.selectMembers r
  | selector, .equal, .string s => d.postings.holders (selector, .string s)
  | selector, .equal, .boolean b => d.postings.holders (selector, .boolean b)
  | _, _, _ => d.postings.matching r

/-- The directory as an index for searches. -/
def index (d : Directory) : Index := ⟨d.allIds, d.select⟩

/-- The components that a query is for, by name. -/
def search (d : Directory) (q : Query) : List Component :=
  (q.search d.index).members.filterMap d.get?

end Directory

end Rendezvous
