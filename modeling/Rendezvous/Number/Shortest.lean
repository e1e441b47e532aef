import Rendezvous.Number.Reading
/-!
# The shortest decimal of a double

Among the decimals that round to a given double, `Binary64.shortest` finds one of fewest digits, and
of those the one nearest to the double. The decimals that round to the double of rank `r` lie
between the midpoints to its two neighbours, and the midpoints belong to it exactly if `r` is even.
For one digit, two digits and so on the two points of that decimal grid next to the double are
tried; seventeen digits always suffice. Two points at the same distance are a tie, which each
format breaks in its own way (`DecimalLayout.tieUpward`).

A `DecimalLayout` holds what a written format decides about a number whose digits are known.
-/

namespace Rendezvous

/-- How a format writes the digits of a number. -/
structure DecimalLayout where
  /-- Whether the greater of two shortest decimals at the same distance is taken, and not the one
  with an even last digit. -/
  tieUpward : Bool
  /-- Whether a number whose first digit stands for this power of ten is written without an
  exponent. -/
  positional : Int → Bool
  /-- What follows the digits of a number written without an exponent and without a fraction. -/
  wholeSuffix : String

namespace Binary64

/-- A fraction with a positive denominator. -/
structure Fraction where
  num : Nat
  den : Nat

/-- The magnitude of rank `r` over the step `10 ^ k` of a decimal grid, where the magnitude is given
in halves of a unit. -/
def overGrid (halfUnits : Nat) (k : Int) : Fraction :=
  if 0 ≤ k then ⟨halfUnits, Nat.pow 10 k.toNat * (2 * unitsPerOne)⟩
  else ⟨halfUnits * Nat.pow 10 (-k).toNat, 2 * unitsPerOne⟩

/-- The power of ten that the first digit of a positive magnitude stands for. -/
def leadingPower (rank : Nat) : Int :=
  (decimalLength (units rank * Nat.pow 10 330 / unitsPerOne) : Int) - 331

/-- The point of the grid of step `10 ^ k` that is nearest to the magnitude of the rank, if one of
its two neighbours on that grid rounds to it. -/
def gridPoint? (tieUpward : Bool) (rank : Nat) (k : Int) : Option Nat :=
  let value := overGrid (2 * units rank) k
  -- The midpoints to the two neighbours, on the same grid.
  let low := (overGrid (units (rank - 1) + units rank) k).num
  let high := (overGrid (units rank + units (rank + 1)) k).num
  let rounds := fun d =>
    if rank % 2 = 0 then low ≤ d * value.den ∧ d * value.den ≤ high
    else low < d * value.den ∧ d * value.den < high
  let below := value.num / value.den
  let rest := value.num % value.den
  let nearer :=
    if 2 * rest < value.den then below
    else if value.den < 2 * rest then below + 1
    else if tieUpward then below + 1
    else below + below % 2
  -- The neighbours are `below` and `below + 1`, so they add up to this.
  let farther := 2 * below + 1 - nearer
  if rounds nearer then some nearer
  else if rounds farther then some farther
  else none

/-- The first grid with a point that rounds to the magnitude, from `digits` digits on. -/
def firstGrid (tieUpward : Bool) (rank : Nat) (digits : Nat) : Nat → Nat × Int
  | 0 => (0, 0)
  | fuel + 1 =>
    let k := leadingPower rank + 1 - digits
    match gridPoint? tieUpward rank k with
    | some d => (d, k)
    | none => firstGrid tieUpward rank (digits + 1) fuel

/-- Takes the zeros off the end of a decimal. -/
def dropZeros (digits : Nat) (k : Int) : Nat → Nat × Int
  | 0 => (digits, k)
  | fuel + 1 =>
    if digits % 10 = 0 ∧ digits ≠ 0 then dropZeros (digits / 10) (k + 1) fuel else (digits, k)

/-- The shortest decimal, digits and exponent of ten, of the magnitude at a rank. -/
def shortest (tieUpward : Bool) (rank : Nat) : Nat × Int :=
  if rank = 0 then (0, 0)
  else
    let d := firstGrid tieUpward rank 1 17
    dropZeros d.1 d.2 17

/-- Digits and an exponent of ten, without an exponent in the text. -/
def positionalText (layout : DecimalLayout) (digits : List Char) (k : Int) : List Char :=
  if 0 ≤ k then digits ++ List.replicate k.toNat '0' ++ layout.wholeSuffix.toList
  else
    let places := (-k).toNat
    if places < digits.length then
      digits.take (digits.length - places) ++ '.' :: digits.drop (digits.length - places)
    else '0' :: '.' :: (List.replicate (places - digits.length) '0' ++ digits)

/-- Digits and an exponent of ten as a number with one digit before the point and an exponent. -/
def exponentText (digits : List Char) (k : Int) : List Char :=
  let power := k + digits.length - 1
  let mantissa := match digits with
    | [] => []
    | [d] => [d]
    | d :: ds => d :: '.' :: ds
  mantissa ++ 'e' :: (if 0 ≤ power then '+' :: (Text.ofInt power).toList
    else (Text.ofInt power).toList)

/-- The text of the magnitude at a rank. -/
def magnitudeText (layout : DecimalLayout) (rank : Nat) : List Char :=
  let d := shortest layout.tieUpward rank
  let digits := (Text.ofNat d.1).toList
  if layout.positional (d.2 + digits.length - 1) then positionalText layout digits d.2
  else exponentText digits d.2

/-- The text of a double in a layout, which says how numbers are written; infinities and the absence
of a number are words. -/
def text (layout : DecimalLayout) : Binary64 → List Char
  | .nan => ['N', 'a', 'N']
  | .number negative rank =>
    let magnitude :=
      if rank.val = infinityRank then ['i', 'n', 'f'] else magnitudeText layout rank
    if negative then '-' :: magnitude else magnitude

/-- Numbers without an exponent, however long, and without a point where they are whole. -/
def plainLayout : DecimalLayout where
  tieUpward := true
  positional := fun _ => true
  wholeSuffix := ""

/-- A double as messages carry it. -/
def plainText (x : Binary64) : String := String.ofList (x.text plainLayout)

end Binary64

end Rendezvous
