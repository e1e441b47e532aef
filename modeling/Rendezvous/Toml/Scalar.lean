import Rendezvous.Toml.Moment
/-!
# Numbers and words in TOML

A value that is no text and has no parts is a run of certain characters, read as a whole
(`Toml.scalar?`): a number, a truth value or a moment. Single low lines may separate digits.
-/

namespace Rendezvous.Toml

/-- Digits without the low lines between them, each of which must have a digit on both sides. -/
def joined? (isDigit : Char → Bool) : List Char → Option (List Char)
  | [] => none
  | [c] => if isDigit c then some [c] else none
  | c :: '_' :: cs => if isDigit c then (joined? isDigit cs).map (c :: ·) else none
  | c :: cs => if isDigit c then (joined? isDigit cs).map (c :: ·) else none

/-- Whether a number fits a signed word of 64 bits. -/
def fits (i : Int) : Bool := Text.FitsInt64 i

/-- The digits of a whole number, which has a zero in front only if it is zero. -/
def whole? (cs : List Char) : Option (List Char) :=
  match joined? isDecimal cs with
  | some ('0' :: _ :: _) => none
  | digits? => digits?

/-- Reads a whole number to base ten. -/
def decimal? (negative : Bool) (cs : List Char) : Option Json := do
  let n ← Text.naturalOfDigits? (← whole? cs)
  let i : Int := if negative then -(n : Int) else n
  if fits i then some (.integer i) else none

/-- Reads a whole number to another base. -/
def based? (base : Nat) (cs : List Char) : Option Json := do
  let isDigit : Char → Bool := fun c => (Text.hexValue? c).any (· < base)
  let digits ← joined? isDigit cs
  let n := digits.foldl (fun acc c => acc * base + (Text.hexValue? c).getD 0) 0
  if fits n then some (.integer n) else none

/-- The digits of an exponent after its sign, and the sign. -/
def exponent? (cs : List Char) : Option (List Char) :=
  match cs with
  | '+' :: rest => joined? isDecimal rest
  | '-' :: rest => (joined? isDecimal rest).map ('-' :: ·)
  | rest => joined? isDecimal rest

/-- Reads a number with a fraction, an exponent or both. It is not past the greatest double. -/
def real? (negative : Bool) (cs : List Char) : Option Json := do
  let isMark := fun c => c = 'e' ∨ c = 'E'
  let mantissa := cs.takeWhile fun c => ¬ isMark c
  let power ← match cs.drop mantissa.length with
    | [] => some []
    | _ :: rest => (exponent? rest).map ('e' :: ·)
  let whole ← whole? (mantissa.takeWhile (· ≠ '.'))
  let fraction ← match mantissa.dropWhile (· ≠ '.') with
    | [] => some []
    | _ :: rest => (joined? isDecimal rest).map ('.' :: ·)
  if fraction.isEmpty ∧ power.isEmpty then none
  else
    let x ← Binary64.ofUnsigned? negative (whole ++ fraction ++ power)
    -- Below the least double a number is taken for the infinity on that side.
    if x.isFinite ∨ negative then some (.real x) else none

/-- Reads a number without its sign. -/
def number? (negative : Bool) (cs : List Char) : Option Json :=
  if cs = ['i', 'n', 'f'] ∨ cs = ['n', 'a', 'n'] then
    (Binary64.ofUnsigned? negative cs).map Json.real
  else
    match decimal? negative cs with
    | some n => some n
    | none => real? negative cs

/-- Reads a value that is no text and has no parts. -/
def scalar? (cs : List Char) : Option Json :=
  let number := match cs with
    | '0' :: 'x' :: rest => based? 16 rest
    | '0' :: 'o' :: rest => based? 8 rest
    | '0' :: 'b' :: rest => based? 2 rest
    | '+' :: rest => number? false rest
    | '-' :: rest => number? true rest
    | rest => number? false rest
  if cs = ['t', 'r', 'u', 'e'] then some (.bool true)
  else if cs = ['f', 'a', 'l', 's', 'e'] then some (.bool false)
  else
    match number with
    | some n => some n
    | none => (moment? .written cs).map momentObject

/-- Whether a character can belong to a value that is no text and has no parts. -/
def isScalarChar (c : Char) : Bool := isPlain c ∨ c = '+' ∨ c = '.' ∨ c = ':'

/-- Takes a value that is no text and has no parts. A blank may stand between a date and a time. -/
def takeScalar (cs : List Char) : Option (Json × List Char) :=
  let first := cs.takeWhile isScalarChar
  let rest := cs.drop first.length
  -- What stands behind one blank may be the time that belongs to a date.
  let second := match rest with
    | ' ' :: more => more.takeWhile isScalarChar
    | _ => []
  match scalar? (first ++ ' ' :: second) with
  | some v => some (v, rest.drop (second.length + 1))
  | none => (scalar? first).map fun v => (v, rest)

end Rendezvous.Toml
