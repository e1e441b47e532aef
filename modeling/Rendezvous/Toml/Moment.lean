import Rendezvous.Json.Basic
import Rendezvous.Time.Timestamp
import Rendezvous.Toml.Text
/-!
# Dates and times in TOML

A moment is a date, a time of the day or both, and has one fixed spelling (`Toml.moment?`). In a
document it stands as a value of its own, or else as a text in a table under `momentKey`; the
bounds of its numbers are wider there. Both become an object under that key, and `Toml.dated?` puts
the text in the place of such objects.
-/

namespace Rendezvous.Toml

/-- The numbers that the hours of a time, and the hours and minutes of an offset, are below. -/
structure MomentBounds where
  hours : Nat
  offsetHours : Nat
  offsetMinutes : Nat

namespace MomentBounds

/-- The bounds of a moment that is a value of its own. -/
def written : MomentBounds := ⟨24, 24, 60⟩

/-- The bounds of a moment that a text in a table gives. -/
def quoted : MomentBounds := ⟨25, 100, 100⟩

end MomentBounds

/-- Takes as many digits as given. -/
def takeDigits (count : Nat) (cs : List Char) : Option (Nat × List Char) :=
  let digits := cs.take count
  if digits.length = count then (Text.naturalOfDigits? digits).map fun n => (n, cs.drop count)
  else none

/-- Takes numbers of two digits, each below its bound and after a mark. -/
def takeTwos (mark : Char) : List Nat → List Char → Option (List Nat × List Char)
  | [], cs => some ([], cs)
  | bound :: bounds, c :: cs => do
    let (n, cs) ← takeDigits 2 cs
    let (ns, cs) ← takeTwos mark bounds cs
    if c = mark ∧ n < bound then some (n :: ns, cs) else none
  | _, [] => none

/-- Takes a date. -/
def takeDate (cs : List Char) : Option (List Char × List Char) := do
  let (year, rest) ← takeDigits 4 cs
  let (numbers, rest) ← takeTwos '-' [100, 100] rest
  match numbers with
  | [month, day] => if Timestamp.isDate year month day then some (cs.take 10, rest) else none
  | _ => none

/-- Takes a time of the day; of its decimals nine count, and zeros at the end do not. -/
def takeTime (bounds : MomentBounds) (cs : List Char) : Option (List Char × List Char) := do
  let (_, rest) ← takeTwos ':' [bounds.hours, 60, 61] (':' :: cs)
  match rest with
  | '.' :: rest =>
    let digits := rest.takeWhile isDecimal
    let shown := ((digits.take 9).reverse.dropWhile (· = '0')).reverse
    if digits.isEmpty then none
    else some (cs.take 8 ++ (if shown.isEmpty then [] else '.' :: shown), rest.drop digits.length)
  | rest => some (cs.take 8, rest)

/-- Reads the offset from universal time after a time, which is a day at most. -/
def offset? (bounds : MomentBounds) : List Char → Option (List Char)
  | [] => some []
  | ['Z'] | ['z'] => some ['Z']
  | sign :: cs =>
    match takeTwos ':' [bounds.offsetHours, bounds.offsetMinutes] (':' :: cs) with
    | some ([hours, minutes], []) =>
      let total := hours * 60 + minutes
      if (sign = '+' ∨ sign = '-') ∧ total ≤ 24 * 60 then
        -- No offset is shown with a plus sign, however it was written.
        some ((if total = 0 then '+' else sign) ::
          (Timestamp.padded 2 (total / 60) ++ ':' :: Timestamp.padded 2 (total % 60)))
      else none
    | _ => none

/-- Reads a date, a time or both. -/
def moment? (bounds : MomentBounds) (cs : List Char) : Option (List Char) :=
  match takeDate cs with
  | none =>
    match takeTime bounds cs with
    | some (time, []) => some time
    | _ => none
  | some (date, []) => some date
  | some (date, mark :: rest) => do
    let (time, rest) ← takeTime bounds rest
    let offset ← offset? bounds rest
    if mark = 'T' ∨ mark = 't' ∨ mark = ' ' then some (date ++ 'T' :: (time ++ offset)) else none

/-- The key of a table that stands for a moment. -/
def momentKey : String := "$__toml_private_datetime"

/-- The object that stands for a moment. -/
def momentObject (text : List Char) : Json := .object [(momentKey, .string (String.ofList text))]

/-- Reads the members of an object that stands for a moment; the first one says which. -/
def momentText? : List (String × Json) → Option Json
  | (_, .string s) :: _ =>
    (moment? .quoted s.toList).map fun text => .string (String.ofList text)
  | _ => none

mutual

/-- A value with the text of a moment for every object that stands for one, as all do whose first
key is `momentKey`. -/
def dated? : Json → Option Json
  | .object members =>
    if members.head?.map Prod.fst = some momentKey then momentText? members
    else (datedMembers? members).map .object
  | .array items => (datedItems? items).map .array
  | v => some v

/-- Members with the texts of moments. -/
def datedMembers? : List (String × Json) → Option (List (String × Json))
  | [] => some []
  | (key, v) :: members => do some ((key, ← dated? v) :: (← datedMembers? members))

/-- Items with the texts of moments. -/
def datedItems? : List Json → Option (List Json)
  | [] => some []
  | v :: items => do some ((← dated? v) :: (← datedItems? items))

end

end Rendezvous.Toml
