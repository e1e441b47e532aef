import Rendezvous.Text.Blank
import Rendezvous.Text.Numeral
/-!
# Timestamps

A moment of the calendar, in seconds since the first of January 1970 in universal time. A second
that is inserted at the end of a day is the one before it with a second and more of fraction.

Timestamps are written in universal time with as many groups of three decimals as they need. They
are read with any offset and with blanks between their parts; a text is taken from left to right,
each reader giving back the rest.
-/

namespace Rendezvous

/-- A moment of the calendar. -/
structure Timestamp where
  seconds : Int
  nanos : Nat
deriving DecidableEq, Inhabited

namespace Timestamp

/-- The days of the months before a month, counted from March. -/
def daysBefore (monthFromMarch : Nat) : Nat := (153 * monthFromMarch + 2) / 5

/-- The days from the first of January 1970 to a date. Years begin with March here, so that a leap
day is the last of its year. -/
def dayNumber (year : Int) (month day : Nat) : Int :=
  let y := if month ≤ 2 then year - 1 else year
  let era := y / 400
  let yearOfEra := y - era * 400
  let dayOfYear : Int := daysBefore (if month ≤ 2 then month + 9 else month - 3) + day - 1
  era * 146097 + yearOfEra * 365 + yearOfEra / 4 - yearOfEra / 100 + dayOfYear - 719468

/-- The date of a day number: year, month and day. -/
def dateOf (number : Int) : Int × Nat × Nat :=
  let z := number + 719468
  let era := z / 146097
  let dayOfEra := z - era * 146097
  let yearOfEra := (dayOfEra - dayOfEra / 1460 + dayOfEra / 36524 - dayOfEra / 146096) / 365
  let dayOfYear := (dayOfEra - (365 * yearOfEra + yearOfEra / 4 - yearOfEra / 100)).toNat
  let fromMarch := (5 * dayOfYear + 2) / 153
  let month := if fromMarch < 10 then fromMarch + 3 else fromMarch - 9
  let year := yearOfEra + era * 400
  (if month ≤ 2 then year + 1 else year, month, dayOfYear - daysBefore fromMarch + 1)

/-- The years that have dates, the first and the last one. -/
def yearRange : Int × Int := (-262143, 262142)

/-- Whether there is such a date. -/
def isDate (year : Int) (month day : Nat) : Bool :=
  -- A day past the end of its month has the number of another date.
  yearRange.1 ≤ year && year ≤ yearRange.2 && 1 ≤ month && month ≤ 12 && 1 ≤ day && day ≤ 31 &&
    dateOf (dayNumber year month day) = (year, month, day)

/-- A number with zeros before it up to a width. -/
def padded (width n : Nat) : List Char :=
  let digits := (Text.ofNat n).toList
  List.replicate (width - digits.length) '0' ++ digits

/-- The decimals of a fraction of a second in groups of three. -/
def fractionText (nanos : Nat) : List Char :=
  if nanos = 0 then []
  else if nanos % 1000000 = 0 then '.' :: padded 3 (nanos / 1000000)
  else if nanos % 1000 = 0 then '.' :: padded 6 (nanos / 1000)
  else '.' :: padded 9 nanos

/-- The timestamp in universal time. -/
def text (t : Timestamp) : String :=
  let (year, month, day) := dateOf (t.seconds / 86400)
  let second := (t.seconds % 86400).toNat
  let leap := t.nanos / 1000000000
  let yearText :=
    if 0 ≤ year ∧ year ≤ 9999 then padded 4 year.toNat
    else (if year < 0 then '-' else '+') :: padded 4 year.natAbs
  String.ofList (yearText ++ '-' :: padded 2 month ++ '-' :: padded 2 day ++
    'T' :: padded 2 (second / 3600) ++ ':' :: padded 2 (second / 60 % 60) ++
    ':' :: padded 2 (second % 60 + leap) ++ fractionText (t.nanos % 1000000000) ++ ['Z'])

/-- The characters after the blanks at the front. -/
def skipBlanks (cs : List Char) : List Char := cs.dropWhile Text.isBlank

/-- Takes one to `width` digits. -/
def takeDigits (width : Nat) (cs : List Char) : Option (Nat × List Char) :=
  let digits := (cs.take width).takeWhile fun c => (Text.digitValue? c).isSome
  (Text.naturalOfDigits? digits).map fun n => (n, cs.drop digits.length)

/-- Takes one to `width` digits after any blanks. -/
def takeNumber (width : Nat) (cs : List Char) : Option (Nat × List Char) :=
  takeDigits width (skipBlanks cs)

/-- Takes a year: four digits at most, or any number of them right after a sign. -/
def takeYear (cs : List Char) : Option (Int × List Char) :=
  match skipBlanks cs with
  | '-' :: rest => (takeDigits rest.length rest).map fun r => (-(r.1 : Int), r.2)
  | '+' :: rest => (takeDigits rest.length rest).map fun r => (r.1, r.2)
  | rest => (takeDigits 4 rest).map fun r => (r.1, r.2)

/-- Takes a given character after any blanks. -/
def takeMark (mark : Char) (cs : List Char) : Option (List Char) :=
  match skipBlanks cs with
  | c :: rest => if c = mark then some rest else none
  | [] => none

/-- Takes the fraction of a second in nanoseconds, if there is one; decimals past the ninth do not
count. -/
def takeFraction : List Char → Option (Nat × List Char)
  | '.' :: cs =>
    let isDigit := fun c => (Text.digitValue? c).isSome
    let digits := (cs.takeWhile isDigit).take 9
    (Text.naturalOfDigits? digits).map fun n =>
      (n * Nat.pow 10 (9 - digits.length), cs.dropWhile isDigit)
  | cs => some (0, cs)

/-- Takes two digits of a value below the bound. -/
def takeTwo (bound : Nat) : List Char → Option (Nat × List Char)
  | a :: b :: rest =>
    match Text.naturalOfDigits? [a, b] with
    | some n => if n < bound then some (n, rest) else none
    | none => none
  | _ => none

/-- Takes the offset from universal time in seconds. -/
def takeOffset (cs : List Char) : Option (Int × List Char) :=
  let signed (negative : Bool) (cs : List Char) : Option (Int × List Char) := do
    let (hours, cs) ← takeTwo 24 cs
    let (minutes, cs) ← takeTwo 60 (cs.dropWhile fun c => c = ':' || Text.isBlank c)
    let offset : Int := hours * 3600 + minutes * 60
    some (if negative then -offset else offset, cs)
  match cs with
  | 'Z' :: rest | 'z' :: rest => some (0, rest)
  | '+' :: rest => signed false rest
  | '-' :: rest | '−' :: rest => signed true rest
  | a :: b :: c :: rest =>
    if [a, b, c].map Char.toLower = ['u', 't', 'c'] then some (0, rest) else none
  | _ => none

/-- Reads a timestamp. -/
def ofText? (s : String) : Option Timestamp := do
  let (year, cs) ← takeYear s.toList
  let (month, cs) ← takeNumber 2 (← takeMark '-' cs)
  let (day, cs) ← takeNumber 2 (← takeMark '-' cs)
  let cs ← match cs with
    | c :: rest => if c = 'T' ∨ c = 't' ∨ c = ' ' then some rest else none
    | [] => none
  let (hour, cs) ← takeNumber 2 cs
  let (minute, cs) ← takeNumber 2 (← takeMark ':' cs)
  let (second, cs) ← takeNumber 2 (← takeMark ':' cs)
  let (nanos, cs) ← takeFraction cs
  let (offset, cs) ← takeOffset (skipBlanks cs)
  if isDate year month day ∧ hour < 24 ∧ minute < 60 ∧ second ≤ 60 ∧ skipBlanks cs = [] then
    -- An inserted second is the one before it with a second of fraction.
    let leap := second / 60
    let seconds := dayNumber year month day * 86400 +
      (hour * 3600 + minute * 60 + (second - leap) : Nat) - offset
    -- In universal time, too, the moment has to be in a year that has dates.
    let year := (dateOf (seconds / 86400)).1
    if yearRange.1 ≤ year ∧ year ≤ yearRange.2 then
      some ⟨seconds, nanos + leap * 1000000000⟩
    else none
  else none

end Timestamp

end Rendezvous
