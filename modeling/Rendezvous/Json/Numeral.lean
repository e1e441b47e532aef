import Rendezvous.Json.Basic
/-!
# Numbers in JSON text

A number that is being read (`Json.Numeral`) keeps its digits; what it is worth is decided at its
end (`Json.Numeral.value`). A whole number that fits is an integer. All else is a double, computed
in a fixed manner that is not always the nearest one: of the digits the first that make a number of
64 bits count, the others only for their places; that number becomes a double, which is multiplied
or divided by one power of ten, with a rounding each time.
-/

namespace Rendezvous.Json

/-- How far the reading of a number has come. -/
inductive Phase
  /-- After the minus sign. -/
  | sign
  /-- After a zero in front, which no digit follows. -/
  | zero
  | whole
  /-- After the point. -/
  | point
  | fraction
  /-- After the letter e. -/
  | mark
  /-- After the sign of the exponent. -/
  | markSign
  | power
deriving DecidableEq

/-- Whether a number can end here. -/
def Phase.isEnd : Phase → Bool
  | zero | whole | fraction | power => true
  | _ => false

/-- The digits of a number that is being read, the last one first. -/
structure Numeral where
  negative : Bool
  whole : List Nat
  fraction : List Nat
  powerNegative : Bool
  power : List Nat

namespace Numeral

/-- A number of which nothing but the sign is known. -/
def start (negative : Bool) : Numeral := ⟨negative, [], [], false, []⟩

/-- Reads one character more, if it can belong to the number. -/
def extend (n : Numeral) (phase : Phase) (c : Char) : Option (Numeral × Phase) :=
  match Text.digitValue? c with
  | some d =>
    match phase with
    | .sign => some ({ n with whole := [d] }, if d = 0 then .zero else .whole)
    | .zero => none
    | .whole => some ({ n with whole := d :: n.whole }, .whole)
    | .point | .fraction => some ({ n with fraction := d :: n.fraction }, .fraction)
    | .mark | .markSign | .power => some ({ n with power := d :: n.power }, .power)
  | none =>
    if c = '.' then
      if phase = .zero ∨ phase = .whole then some (n, .point) else none
    else if c = 'e' ∨ c = 'E' then
      if phase = .zero ∨ phase = .whole ∨ phase = .fraction then some (n, .mark) else none
    else if c = '+' then if phase = .mark then some (n, .markSign) else none
    else if c = '-' then
      if phase = .mark then some ({ n with powerNegative := true }, .markSign) else none
    else none

/-- Appends digits to a number while the result fits 64 bits, and counts those that are left. -/
def appendDigits (acc : Nat) : List Nat → Nat × Nat
  | [] => (acc, 0)
  | d :: ds =>
    if acc * 10 + d < 0x1_0000_0000_0000_0000 then appendDigits (acc * 10 + d) ds
    else (acc, ds.length + 1)

/-- The rank of the double for a power of ten. -/
def powerOfTen (k : Nat) : Nat := Binary64.rankOfDecimal 1 k

/-- Divides a magnitude by a power of ten, by at most the 308th at a time. -/
def divideByPower (rank k : Nat) : Nat → Nat
  | 0 => 0
  | steps + 1 =>
    if k ≤ 308 then Binary64.divRank rank (powerOfTen k)
    else if rank = 0 then 0
    else divideByPower (Binary64.divRank rank (powerOfTen 308)) (k - 308) steps

/-- The rank of the double for digits and an exponent of ten, unless it would be past all finite
doubles. Three divisions take every number of 64 bits to zero. -/
def scaledRank? (significand : Nat) (exponent : Int) : Option Nat :=
  let rank := Binary64.nearestRank (significand * Binary64.unitsPerOne) 1
  if 0 ≤ exponent then
    if exponent ≤ 308 then
      let product := Binary64.mulRank rank (powerOfTen exponent.toNat)
      if product < Binary64.infinityRank then some product else none
    else if significand = 0 then some 0
    else none
  else some (divideByPower rank (-exponent).toNat 4)

/-- What a complete number is worth. An exponent of more than 31 bits makes zero of all but an error
that it makes of large numbers. -/
def value (n : Numeral) : Json :=
  let (significand, dropped) := appendDigits 0 n.whole.reverse
  -- Minus zero and what is less than every signed word are doubles.
  if n.fraction = [] ∧ n.power = [] ∧ dropped = 0 ∧
      (n.negative = false ∨ (significand ≠ 0 ∧ significand ≤ 0x8000_0000_0000_0000)) then
    .integer (if n.negative then -(significand : Int) else significand)
  else
    -- The fraction goes on where the whole part stopped; what does not fit is passed over.
    let (significand, unread) := appendDigits significand n.fraction.reverse
    let places : Int := dropped - ((n.fraction.length - unread : Nat) : Int)
    let power : Nat := n.power.foldr (fun d acc => acc * 10 + d) 0
    let rank? :=
      if 0x8000_0000 ≤ power then
        if significand ≠ 0 ∧ n.powerNegative = false then none else some 0
      else scaledRank? significand (if n.powerNegative then places - power else places + power)
    match rank? with
    | some rank => .real (Binary64.ofRank n.negative rank)
    | none => .unreadable

end Numeral

end Rendezvous.Json
