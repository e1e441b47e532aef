import Rendezvous.Collection.Dict
import Rendezvous.Json.Decoder
import Rendezvous.Settings.Path
/-!
# Layers of settings

Settings come in layers: a later one says what it changes, and what it does not name stays
(`Json.overlay`). Members are named without regard to case, and those at the top by a path
(`Json.overlayAt`).

Stored settings are read with some tolerance: where a value of one kind is asked for, one of another
kind is taken for it if its meaning is plain (`Json.tolerantLeaves`).
-/

namespace Rendezvous.Json

/-- The members of an object, none of anything else. -/
def membersOf : Json → List (String × Json)
  | object members => members
  | _ => []

/-- The items of an array, none of anything else. -/
def itemsOf : Json → List Json
  | array items => items
  | _ => []

/-- A key with small letters for capital ones. -/
def foldKey (key : String) : String :=
  -- The sign of the unit kelvin is a capital form of a letter from `a` to `z` too.
  String.ofList (key.toList.map fun c => if c = '\u212a' then 'k' else c.toLower)

mutual

/-- What is at a place after something is laid over it: an object changes member by member, anything
else takes the place. -/
def overlay (old : Option Json) : Json → Json
  -- An object without members changes nothing, and is there where nothing was.
  | object [] => old.getD (object [])
  | object (m :: ms) => object (overlayMembers (membersOf (old.getD null)) (m :: ms))
  -- The objects in an array are not laid over anything, and their keys stay as they are.
  | v => v

/-- The members of an object after others are laid over them. -/
def overlayMembers (members : List (String × Json)) : List (String × Json) → List (String × Json)
  | [] => members
  | (key, v) :: rest =>
    let name := foldKey key
    overlayMembers (Dict.put name (overlay (Dict.find? name members) v) members) rest

end

/-- Lays a value over what is at the end of a path. Objects and arrays that are missing on the way
are made in the place of what is there, and an array is filled up to the item. -/
def overlayAt (v : Json) : List PathStep → Option Json → Option Json
  | [], old => some (overlay old v)
  | .member key :: path, old => do
    let name := foldKey key
    let members := membersOf (old.getD null)
    some (object (Dict.put name (← overlayAt v path (Dict.find? name members)) members))
  | .item position :: path, old => do
    let items := itemsOf (old.getD null)
    let index ← PathStep.index? items.length position
    let items := items ++ List.replicate (index + 1 - items.length) null
    -- An item is not added to but replaced.
    let item ← if path.isEmpty then some v else overlayAt v path items[index]?
    some (array (items.set index item))

/-- Lays a layer of settings over others. A path to an item that no array can have leads nowhere. -/
def layer? (base top : Json) : Option Json :=
  (membersOf top).foldlM (fun done m => overlayAt m.2 (PathStep.ofKey m.1) (some done)) base

/-- A double as a whole number less than `2 ^ 64`: the nearest one, of two the greater, or the last
one at the end of the range on its side. -/
def wordOfReal : Binary64 → Nat
  | .nan | .number true _ => 0
  | .number false rank =>
    if rank.val = Binary64.infinityRank then UInt64.size - 1
    else
      -- Half a one is added before the fraction is cut off.
      min ((2 * Binary64.units rank + Binary64.unitsPerOne) / (2 * Binary64.unitsPerOne))
        (UInt64.size - 1)

/-- Words for a truth value. -/
def truthOfWord? (s : String) : Option Bool :=
  let word := Text.lowerAscii s
  if ["true", "on", "yes"].contains word then some true
  else if ["false", "off", "no"].contains word then some false
  else none

/-- Reads a text; truth values and numbers are taken as they are written. -/
def tolerantText : Decoder String
  | _, string s => some s
  | _, bool b => some (Text.ofBool b)
  | _, integer i => some (Text.ofInt i)
  | _, real x => some x.plainText
  | _, _ => none

/-- Reads a whole number below a bound; it can be the nearest to a number, a numeral, or one or zero
for a truth value. -/
def tolerantNatural (bound : Nat) : Decoder Nat := fun _ v =>
  let n? : Option Nat := match v with
    | integer i => if 0 ≤ i then some i.toNat else none
    | real x => some (wordOfReal x)
    | bool b => some b.toNat
    | string s =>
      match truthOfWord? s with
      | some b => some b.toNat
      | none => Text.word64? s
    | _ => none
  n?.bind fun n => if n < bound then some n else none

/-- Reads a truth value; a number is true unless it is zero. -/
def tolerantFlag : Decoder Bool
  | _, bool b => some b
  | _, integer i => some (i ≠ 0)
  | _, real x => some (x.position? ≠ some 0)
  | _, string s => if s = "1" then some true else if s = "0" then some false else truthOfWord? s
  | _, _ => none

/-- Every value is taken for the kind that it is asked for if its meaning is plain, and what stands
past the last field of a structure counts for nothing. -/
def tolerantLeaves : Leaves := ⟨tolerantText, tolerantNatural, tolerantFlag, true⟩

end Rendezvous.Json
