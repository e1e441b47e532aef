import Rendezvous.Text.Numeral
/-!
# Universally unique identifiers

An identifier is a number of 128 bits, shown as 32 hexadecimal digits in five groups. Four written
forms are read, with letters of either case: the plain digits, the groups joined by hyphens, and the
latter in braces or after `urn:uuid:`.
-/

namespace Rendezvous

/-- The number of identifiers, `2 ^ 128`. -/
def Uuid.count : Nat := 0x1_0000_0000_0000_0000_0000_0000_0000_0000

/-- A universally unique identifier. -/
structure Uuid where
  number : Fin Uuid.count
deriving DecidableEq

instance : Inhabited Uuid := ⟨⟨⟨0, by decide⟩⟩⟩

namespace Uuid

/-- The identifier with the given number after a first one. -/
def supply (first n : Nat) : Uuid :=
  ⟨(first + n) % count, Nat.mod_lt _ (by decide)⟩

/-- The number that hexadecimal digits write, after those already read into `acc`. -/
def readHex (acc : Nat) : List Char → Option Nat
  | [] => some acc
  | c :: cs =>
    match Text.hexValue? c with
    | some d => readHex (acc * 16 + d) cs
    | none => none

/-- Reads 32 hexadecimal digits. -/
def ofDigits? (cs : List Char) : Option Uuid :=
  if cs.length = 32 then
    match readHex 0 cs with
    | some n => if h : n < count then some ⟨⟨n, h⟩⟩ else none
    | none => none
  else none

/-- Where the hyphens stand among the 36 characters of the joined groups. -/
def hyphenPlaces : List Nat := [8, 13, 18, 23]

/-- Reads the five groups joined by hyphens. -/
def ofGroups? (cs : List Char) : Option Uuid :=
  if cs.length = 36 ∧ hyphenPlaces.all (fun i => cs[i]? = some '-') then
    ofDigits? (cs.filter (· ≠ '-'))
  else none

/-- Reads any of the four written forms. -/
def ofText? (s : String) : Option Uuid :=
  let cs := s.toList
  if cs.length = 32 then ofDigits? cs
  else if cs.length = 38 ∧ cs.head? = some '\x7b' ∧ cs.getLast? = some '\x7d' then
    ofGroups? (cs.drop 1).dropLast
  else if cs.length = 45 ∧ (cs.take 9).map Char.toLower = "urn:uuid:".toList then
    ofGroups? (cs.drop 9)
  else ofGroups? cs

/-- The lower-case hexadecimal digit of a value. -/
def hexDigit (n : Nat) : Char := (Nat.digitChar n).toLower

/-- The `count` least significant hexadecimal digits of a number, the greatest first. -/
def hexDigits (n : Nat) : Nat → List Char
  | 0 => []
  | count + 1 => hexDigits (n / 16) count ++ [hexDigit (n % 16)]

/-- The five groups joined by hyphens, in lower case. -/
def text (u : Uuid) : String :=
  let cs := hexDigits u.number.val 32
  String.ofList (cs.take 8 ++ '-' :: (cs.drop 8).take 4 ++ '-' :: (cs.drop 12).take 4 ++
    '-' :: (cs.drop 16).take 4 ++ '-' :: cs.drop 20)

end Uuid

end Rendezvous
