import Rendezvous.Text.Numeral
/-!
# Texts and keys in TOML

A text stands between quotation marks, where escape sequences count, or between apostrophes, where
they do not, and over several lines between three of either. A key is such a text in one line, or
some plain characters; keys with points between them lead from table to table.

Reading goes from left to right: every reader takes characters off the front of a list and gives
back what it read with the rest, or nothing.
-/

namespace Rendezvous.Toml

/-- What takes a value off the front of the characters. -/
abbrev Taker (α : Type) := List Char → Option (α × List Char)

/-- Whether a character is a blank within a line. -/
def isBlank (c : Char) : Bool := c = ' ' ∨ c = '\t'

/-- Whether a character is a decimal digit. -/
def isDecimal (c : Char) : Bool := (Text.digitValue? c).isSome

/-- Whether a character may stand in a text or a comment. -/
def isShown (c : Char) : Bool := c = '\t' ∨ (' ' ≤ c ∧ c ≠ '\x7f')

/-- The character of a code of hexadecimal digits. -/
def charOfCode? (digits : List Char) : Option Char := do
  let values ← digits.mapM Text.hexValue?
  let code := values.foldl (fun acc d => acc * 16 + d) 0
  if h : code.isValidChar then some (Char.ofNatAux code h) else none

/-- The character that a letter after a backslash stands for. -/
def escaped? (c : Char) : Option Char :=
  if c = 'b' then some '\x08'
  else if c = 't' then some '\t'
  else if c = 'n' then some '\n'
  else if c = 'f' then some '\x0c'
  else if c = 'r' then some '\r'
  else if c = '"' ∨ c = '\\' then some c
  else none

/-- Whether nothing but blanks stands before the end of the line. -/
def isLineEnd (cs : List Char) : Bool :=
  match cs.dropWhile isBlank with
  | '\n' :: _ | '\r' :: '\n' :: _ => true
  | _ => false

/-- Takes the rest of a text with escape sequences in one line; `done` holds what was read, last one
first. -/
def takeQuoted (done : List Char) : Taker String
  | '"' :: cs => some (String.ofList done.reverse, cs)
  | '\\' :: 'u' :: a :: b :: c :: d :: cs =>
    match charOfCode? [a, b, c, d] with
    | some x => takeQuoted (x :: done) cs
    | none => none
  | '\\' :: 'U' :: a :: b :: c :: d :: e :: f :: g :: h :: cs =>
    match charOfCode? [a, b, c, d, e, f, g, h] with
    | some x => takeQuoted (x :: done) cs
    | none => none
  | '\\' :: c :: cs =>
    match escaped? c with
    | some x => takeQuoted (x :: done) cs
    | none => none
  | c :: cs => if isShown c then takeQuoted (c :: done) cs else none
  | [] => none

/-- Takes the rest of a text without escape sequences in one line. -/
def takeLiteral (done : List Char) : Taker String
  | '\'' :: cs => some (String.ofList done.reverse, cs)
  | c :: cs => if isShown c then takeLiteral (c :: done) cs else none
  | [] => none

/-- Takes the rest of a text with escape sequences over several lines. The last of five quotation
marks end it. While `skipping`, blanks and line ends are passed over, as they are after a backslash
at the end of a line. -/
def takeQuotedLines (skipping : Bool) (done : List Char) : Taker String
  | '"' :: '"' :: '"' :: '"' :: '"' :: cs => some (String.ofList ('"' :: '"' :: done).reverse, cs)
  | '"' :: '"' :: '"' :: '"' :: cs => some (String.ofList ('"' :: done).reverse, cs)
  | '"' :: '"' :: '"' :: cs => some (String.ofList done.reverse, cs)
  | '\\' :: 'u' :: a :: b :: c :: d :: cs =>
    match charOfCode? [a, b, c, d] with
    | some x => takeQuotedLines false (x :: done) cs
    | none => none
  | '\\' :: 'U' :: a :: b :: c :: d :: e :: f :: g :: h :: cs =>
    match charOfCode? [a, b, c, d, e, f, g, h] with
    | some x => takeQuotedLines false (x :: done) cs
    | none => none
  | '\\' :: c :: cs =>
    if isLineEnd (c :: cs) then takeQuotedLines true done (c :: cs)
    else
      match escaped? c with
      | some x => takeQuotedLines false (x :: done) cs
      | none => none
  | '\r' :: '\n' :: cs => takeQuotedLines skipping (if skipping then done else '\n' :: done) cs
  | '\n' :: cs => takeQuotedLines skipping (if skipping then done else '\n' :: done) cs
  | c :: cs =>
    if skipping && isBlank c then takeQuotedLines true done cs
    else if isShown c then takeQuotedLines false (c :: done) cs
    else none
  | [] => none

/-- Takes the rest of a text without escape sequences over several lines. -/
def takeLiteralLines (done : List Char) : Taker String
  | '\'' :: '\'' :: '\'' :: '\'' :: '\'' :: cs =>
    some (String.ofList ('\'' :: '\'' :: done).reverse, cs)
  | '\'' :: '\'' :: '\'' :: '\'' :: cs => some (String.ofList ('\'' :: done).reverse, cs)
  | '\'' :: '\'' :: '\'' :: cs => some (String.ofList done.reverse, cs)
  | '\r' :: '\n' :: cs => takeLiteralLines ('\n' :: done) cs
  | '\n' :: cs => takeLiteralLines ('\n' :: done) cs
  | c :: cs => if isShown c then takeLiteralLines (c :: done) cs else none
  | [] => none

/-- The characters after the end of a line that directly follows. -/
def skipFirstLineEnd : List Char → List Char
  | '\r' :: '\n' :: cs | '\n' :: cs => cs
  | cs => cs

/-- Takes a text of any form. -/
def takeText : Taker String
  | '"' :: '"' :: '"' :: cs => takeQuotedLines false [] (skipFirstLineEnd cs)
  | '\'' :: '\'' :: '\'' :: cs => takeLiteralLines [] (skipFirstLineEnd cs)
  | '"' :: cs => takeQuoted [] cs
  | '\'' :: cs => takeLiteral [] cs
  | _ => none

/-- Whether a character may stand in a key without quotation marks. -/
def isPlain (c : Char) : Bool :=
  ('a' ≤ c ∧ c ≤ 'z') ∨ ('A' ≤ c ∧ c ≤ 'Z') ∨ ('0' ≤ c ∧ c ≤ '9') ∨ c = '_' ∨ c = '-'

/-- Takes one key. -/
def takeKey : Taker String
  | '"' :: cs => takeQuoted [] cs
  | '\'' :: cs => takeLiteral [] cs
  | cs =>
    let plain := cs.takeWhile isPlain
    if plain.isEmpty then none else some (String.ofList plain, cs.drop plain.length)

/-- Takes keys with points between them, and blanks around those; at most as many as given. -/
def takePath : Nat → Taker (List String)
  | 0 => fun _ => none
  | count + 1 => fun cs => do
    let (key, cs) ← takeKey (cs.dropWhile isBlank)
    match cs.dropWhile isBlank with
    | '.' :: cs => (takePath count cs).map fun r => (key :: r.1, r.2)
    | cs => some ([key], cs)

end Rendezvous.Toml
