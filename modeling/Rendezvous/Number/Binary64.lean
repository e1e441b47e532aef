/-!
# Doubles

The numbers of the IEEE 754 format `binary64`, by their place in it: a double that is a number is a
sign and a rank, where the rank counts the non-negative doubles from zero upwards. Zero has rank 0,
the least positive double rank 1, and infinity the last rank, `infinityRank`. Ranks make order
plain (`compare?` compares signed ranks) and parity too: a rank is even exactly if the significand
is, which is what rounding to even asks for.

The magnitude of rank `r` is `units r` times the least positive double. `nearestRank` finds the rank
nearest to a fraction of such units; every conversion and every operation here is the exact value
put through it.
-/

namespace Rendezvous

namespace Binary64

/-- The number of ranks from one power of two to the next, `2 ^ 52`. -/
def binade : Nat := 0x10_0000_0000_0000

/-- The rank of infinity: one more than that of the greatest finite double. -/
def infinityRank : Nat := 2047 * binade

end Binary64

/-- A double: no number, or a sign and a rank. -/
inductive Binary64
  | nan
  | number (negative : Bool) (rank : Fin (Binary64.infinityRank + 1))
deriving DecidableEq

namespace Binary64

/-- The double with the given sign and rank; ranks past infinity's count as infinity's. -/
def ofRank (negative : Bool) (rank : Nat) : Binary64 :=
  .number negative ⟨min rank infinityRank, by omega⟩

/-- The magnitude at a rank in units of the least positive double. The ranks below `2 ^ 53` are
their own magnitudes; from there on each run of `2 ^ 52` ranks has twice the spacing of the one
before. The formula goes on past `infinityRank`, which makes it the next power of two. -/
def units (rank : Nat) : Nat :=
  if rank < binade then rank
  else (binade + rank % binade) <<< (rank / binade - 1)

/-- The nearest whole number to `num / den`, of two the even one. -/
def roundHalfEven (num den : Nat) : Nat :=
  let whole := num / den
  let rest := num % den
  if 2 * rest < den then whole
  else if den < 2 * rest then whole + 1
  else whole + whole % 2

/-- The rank whose magnitude is nearest to `num / den` units, of two the even one. -/
def nearestRank (num den : Nat) : Nat :=
  -- The doubles next to the fraction are `2 ^ spacing` units apart.
  let spacing := Nat.log2 (num / den) - 52
  min (spacing * binade + roundHalfEven num (den <<< spacing)) infinityRank

/-- How many units make one. -/
def unitsPerOne : Nat := 1 <<< 1074

/-- The double nearest to `num / den`, with the given sign. -/
def ofRatio (negative : Bool) (num den : Nat) : Binary64 :=
  ofRank negative (nearestRank (num * unitsPerOne) den)

/-- The double nearest to an integer. -/
def ofInt (i : Int) : Binary64 := ofRatio (i < 0) i.natAbs 1

/-- The signed rank of a number: the doubles that are numbers in order, the two zeros as one. -/
def position? : Binary64 → Option Int
  | .nan => none
  | .number negative rank => some (if negative then -(rank.val : Int) else rank.val)

/-- The order of two numbers; a double that is no number has none. -/
def compare? (x y : Binary64) : Option Ordering :=
  match x.position?, y.position? with
  | some p, some q => some (compare p q)
  | _, _ => none

/-- The rank of the product of two magnitudes. -/
def mulRank (x y : Nat) : Nat := nearestRank (units x * units y) unitsPerOne

/-- The rank of the quotient of two magnitudes. -/
def divRank (x y : Nat) : Nat := nearestRank (units x * unitsPerOne) (units y)

/-- Whether the double is a number other than the infinities. -/
def isFinite : Binary64 → Bool
  | .nan => false
  | .number _ rank => rank.val < infinityRank

/-- The bits of a double as a word: the sign before the rank. What is no number has its usual
bits. -/
def bits : Binary64 → Nat
  | .nan => 0x7FF8_0000_0000_0000
  | .number negative rank => (if negative then 0x8000_0000_0000_0000 else 0) + rank.val

theorem compare?_isSome (x y : Binary64) :
    (x.compare? y).isSome = true ↔ x ≠ .nan ∧ y ≠ .nan := by
  cases x <;> cases y <;> simp [compare?, position?]

theorem compare?_swap (x y : Binary64) : y.compare? x = (x.compare? y).map Ordering.swap := by
  cases x <;> cases y <;> simp [compare?, position?, Int.compare_swap]

theorem units_of_lt {rank : Nat} (h : rank < 2 * binade) : units rank = rank := by
  unfold units
  split
  · rfl
  · unfold binade at *
    have hone : rank / 0x10_0000_0000_0000 = 1 := by omega
    rw [hone, Nat.shiftLeft_zero]
    omega

end Binary64

end Rendezvous
