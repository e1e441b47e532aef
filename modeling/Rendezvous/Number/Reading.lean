import Rendezvous.Number.Binary64
import Rendezvous.Text.Numeral
/-!
# Reading doubles from decimal text

A decimal is a whole number of digits times a power of ten. `Binary64.ofDecimal` is the double
nearest to it. `Binary64.ofText?` reads a text: an optional sign, then a word for infinity or for no
number in letters of either case, or digits with at most one point among them or at an end, and
after those perhaps an exponent.
-/

namespace Rendezvous.Binary64

/-- The number of decimal digits of a natural number, none for zero. -/
def decimalLength (n : Nat) : Nat := if n = 0 then 0 else (Nat.toDigits 10 n).length

/-- The rank nearest to `digits * 10 ^ exponent`. A number of more than 310 places before the point
is past every finite double, and one with 330 zeros after it is less than half the least one; the
powers of ten are formed only between. -/
def rankOfDecimal (digits : Nat) (exponent : Int) : Nat :=
  -- The number is less than `10 ^ top`, and not less than a tenth of it.
  let top := decimalLength digits + exponent
  if digits = 0 ∨ top < -330 then 0
  else if 310 < top then infinityRank
  else if 0 ≤ exponent then nearestRank (digits * Nat.pow 10 exponent.toNat * unitsPerOne) 1
  else nearestRank (digits * unitsPerOne) (Nat.pow 10 (-exponent).toNat)

/-- The double nearest to a decimal. -/
def ofDecimal (negative : Bool) (digits : Nat) (exponent : Int) : Binary64 :=
  ofRank negative (rankOfDecimal digits exponent)

/-- The exponent that follows the letter e: digits after at most one sign. -/
def exponent? : List Char → Option Int
  | '+' :: cs => (Text.naturalOfDigits? cs).map Int.ofNat
  | '-' :: cs => (Text.naturalOfDigits? cs).map fun n => -Int.ofNat n
  | cs => (Text.naturalOfDigits? cs).map Int.ofNat

/-- Reads a decimal without its sign as digits and an exponent of ten. -/
def decimal? (cs : List Char) : Option (Nat × Int) :=
  let isDigit := fun c => (Text.digitValue? c).isSome
  let whole := cs.takeWhile isDigit
  let afterWhole := cs.dropWhile isDigit
  let fraction := match afterWhole with
    | '.' :: rest => rest.takeWhile isDigit
    | _ => []
  let tail := match afterWhole with
    | '.' :: rest => rest.dropWhile isDigit
    | rest => rest
  match Text.naturalOfDigits? (whole ++ fraction) with
  | none => none
  | some digits =>
    match tail with
    | [] => some (digits, -(fraction.length : Int))
    | mark :: rest =>
      if mark = 'e' ∨ mark = 'E' then
        (exponent? rest).map fun e => (digits, e - fraction.length)
      else none

/-- Reads a number, infinity or the absence of a number without a sign, and gives it one. -/
def ofUnsigned? (negative : Bool) (cs : List Char) : Option Binary64 :=
  let word := String.ofList (cs.map Char.toLower)
  if word = "nan" then some .nan
  else if word = "inf" ∨ word = "infinity" then some (ofRank negative infinityRank)
  else (decimal? cs).map fun d => ofDecimal negative d.1 d.2

/-- Reads a double. -/
def ofText? (s : String) : Option Binary64 :=
  match s.toList with
  | '+' :: cs => ofUnsigned? false cs
  | '-' :: cs => ofUnsigned? true cs
  | cs => ofUnsigned? false cs

end Rendezvous.Binary64
