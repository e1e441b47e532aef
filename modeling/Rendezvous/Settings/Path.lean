import Rendezvous.Text.Numeral
/-!
# Paths of settings

A key can be a path to a setting: a name, and after it names with points before them and positions
between brackets, as in `table.rows[2].size`. A key that is not written like that is the name of one
member (`PathStep.ofKey`).
-/

namespace Rendezvous

/-- A step from a value to one inside it. -/
inductive PathStep
  /-- To the member of an object. -/
  | member (key : String)
  /-- To the item of an array at a position; one below zero counts from the end. -/
  | item (position : Int)
deriving DecidableEq

namespace PathStep

/-- Whether a character can stand in a name on a path. -/
def isNameChar (c : Char) : Bool := c.isAlphanum ∨ c = ' ' ∨ c = '_' ∨ c = '-'

/-- Reads a position, which may have blanks around it. -/
def position? (cs : List Char) : Option Int :=
  let skipBlanks := List.dropWhile fun c => c = ' ' ∨ c = '\t'
  let value? : Option Int := match (skipBlanks (skipBlanks cs).reverse).reverse with
    | '-' :: digits => (Text.naturalOfDigits? digits).map fun n => -(n : Int)
    | digits => (Text.naturalOfDigits? digits).map Int.ofNat
  value?.bind fun i => if Text.FitsInt64 i then some i else none

/-- Reads steps: names after points and positions between brackets. -/
def ofChars? : List Char → Option (List PathStep)
  | [] => some []
  | '.' :: cs =>
    let name := cs.takeWhile isNameChar
    if name.isEmpty then none
    else (ofChars? (cs.drop name.length)).map (member (String.ofList name) :: ·)
  | '[' :: cs =>
    let inside := cs.takeWhile (· ≠ ']')
    -- Without a closing bracket nothing is left to drop, and the key is no path.
    if inside.length = cs.length then none
    else do some (item (← position? inside) :: (← ofChars? (cs.drop (inside.length + 1))))
  | _ => none
termination_by cs => cs.length
decreasing_by all_goals simp only [List.length_drop, List.length_cons]; omega

/-- The path that a key is; a key that is none is one name. -/
def ofKey (key : String) : List PathStep :=
  -- Only the name at the front has no point before it.
  (ofChars? ('.' :: key.toList)).getD [member key]

/-- How many items an array may be grown to have. -/
def maxItems : Nat := 0x100_0000

/-- The index of a position among so many items, or past them as far as an array may grow. -/
def index? (count : Nat) (position : Int) : Option Nat :=
  let i := if position < 0 then position + count else position
  if 0 ≤ i ∧ i < maxItems then some i.toNat else none

end PathStep

end Rendezvous
