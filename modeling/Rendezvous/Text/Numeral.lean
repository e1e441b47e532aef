import Rendezvous.Text.Blank
/-!
# Numerals

Decimal numerals as they stand in messages. An unsigned numeral is digits, of which any number may
be leading zeros, after at most a plus sign; a signed one may have a minus sign instead. A bound
always comes with the reader: a numeral whose value does not fit is no numeral of that width.
-/

namespace Rendezvous.Text

/-- The value of a decimal digit. -/
def digitValue? (c : Char) : Option Nat :=
  if '0' ≤ c ∧ c ≤ '9' then some (c.toNat - '0'.toNat) else none

/-- The value of a hexadecimal digit of either case. -/
def hexValue? (c : Char) : Option Nat :=
  if '0' ≤ c ∧ c ≤ '9' then some (c.toNat - '0'.toNat)
  else if 'a' ≤ c ∧ c ≤ 'f' then some (c.toNat - 'a'.toNat + 10)
  else if 'A' ≤ c ∧ c ≤ 'F' then some (c.toNat - 'A'.toNat + 10)
  else none

/-- The number that a list of digits writes, after the digits already read into `acc`. -/
def readDigits (acc : Nat) : List Char → Option Nat
  | [] => some acc
  | c :: cs =>
    match digitValue? c with
    | some d => readDigits (acc * 10 + d) cs
    | none => none

/-- The number of one digit or more. -/
def naturalOfDigits? : List Char → Option Nat
  | [] => none
  | cs => readDigits 0 cs

/-- Reads a numeral without a minus sign whose value is less than `bound`. -/
def natural? (bound : Nat) (s : String) : Option Nat :=
  let digits := match s.toList with
    | '+' :: cs => cs
    | cs => cs
  match naturalOfDigits? digits with
  | some n => if n < bound then some n else none
  | none => none

/-- Reads a numeral that fits a word of 16 bits. -/
def word16? (s : String) : Option UInt16 := (natural? 65536 s).map Nat.toUInt16

/-- Reads a numeral that fits a word of 64 bits. -/
def word64? (s : String) : Option Nat := natural? UInt64.size s

/-- Whether a whole number fits a signed word of 64 bits. -/
def FitsInt64 (i : Int) : Prop := -0x8000_0000_0000_0000 ≤ i ∧ i < 0x8000_0000_0000_0000

instance : DecidablePred FitsInt64 := fun _ => inferInstanceAs (Decidable (_ ∧ _))

/-- Reads a numeral that fits a signed word of 64 bits. -/
def integer? (s : String) : Option Int64 :=
  let value? : Option Int := match s.toList with
    | '+' :: cs => (naturalOfDigits? cs).map Int.ofNat
    | '-' :: cs => (naturalOfDigits? cs).map fun n => -Int.ofNat n
    | cs => (naturalOfDigits? cs).map Int.ofNat
  match value? with
  | some i => if FitsInt64 i then some (Int64.ofInt i) else none
  | none => none

/-- Reads `true` or `false`. -/
def truth? (s : String) : Option Bool :=
  if s = "true" then some true else if s = "false" then some false else none

/-- Writes a natural number in decimal digits. -/
def ofNat (n : Nat) : String := Nat.repr n

/-- Writes an integer in decimal digits, after a minus sign where it is negative. -/
def ofInt (i : Int) : String :=
  if i < 0 then String.ofList ('-' :: (ofNat i.natAbs).toList) else ofNat i.natAbs

/-- Writes a truth value as a word. -/
def ofBool (b : Bool) : String := if b then "true" else "false"

theorem truth?_ofBool (b : Bool) : truth? (ofBool b) = some b := by
  cases b <;> decide

end Rendezvous.Text
