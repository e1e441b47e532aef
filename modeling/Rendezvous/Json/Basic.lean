import Rendezvous.Number.Shortest
/-!
# JSON values

A JSON value as a tree, and its two written forms: without any blank (`Json.compact`) and spread
over lines with two blanks for each level (`Json.pretty`).

Whole numbers are kept apart from the others, as a reader is asked for one or for either. The
constructor `unreadable` stands for a value that is well formed but that nobody can be given: a text
with half of a surrogate pair or a byte that is no character, a number past every double, an object
with such a text for a key. It matters only if somebody asks for the value.
-/

namespace Rendezvous

/-- A JSON value. Members of an object keep their order and may repeat a key. -/
inductive Json
  | null
  | bool (value : Bool)
  | integer (value : Int)
  | real (value : Binary64)
  | string (value : String)
  | array (items : List Json)
  | object (members : List (String × Json))
  | unreadable
deriving Inhabited

namespace Json

/-- The JSON value of a natural number. -/
def natural (n : Nat) : Json := .integer n

/-- A value or, where there is none, `null`. -/
def orNull {α : Type} (encode : α → Json) : Option α → Json
  | some a => encode a
  | none => .null

/-- Numbers are positional while the first digit stands for 10^-5 to 10^15, and always show that
they are no integers; of two shortest decimals at the same distance the even one is written. -/
def numberLayout : DecimalLayout where
  tieUpward := false
  positional := fun power => -5 ≤ power ∧ power < 16
  wholeSuffix := ".0"

/-- The escape sequence of a character, or the character itself where it needs none: a quotation
mark, a backslash and the characters below the blank do. -/
def escape (c : Char) : List Char :=
  if c = '"' then ['\\', '"']
  else if c = '\\' then ['\\', '\\']
  else if c = '\x08' then ['\\', 'b']
  else if c = '\x0c' then ['\\', 'f']
  else if c = '\n' then ['\\', 'n']
  else if c = '\r' then ['\\', 'r']
  else if c = '\t' then ['\\', 't']
  else if c.toNat < 0x20 then
    ['\\', 'u', '0', '0', Nat.digitChar (c.toNat / 16), Nat.digitChar (c.toNat % 16)]
  else [c]

/-- A text in quotation marks. -/
def quoted (s : String) : List Char := '"' :: (s.toList.flatMap escape ++ ['"'])

/-- A value without parts; one that is no finite number is `null`. -/
def scalarText : Json → List Char
  | bool value => if value then "true".toList else "false".toList
  | integer value => (Text.ofInt value).toList
  | real value => if value.isFinite then value.text numberLayout else "null".toList
  | string value => quoted value
  | _ => "null".toList

mutual

/-- A value in one line. -/
def compact : Json → List Char
  | array items => '[' :: (compactItems items ++ [']'])
  | object members => '\x7b' :: (compactMembers members ++ ['\x7d'])
  | value => scalarText value

/-- The items of an array with commas between them. -/
def compactItems : List Json → List Char
  | [] => []
  | [item] => compact item
  | item :: items => compact item ++ ',' :: compactItems items

/-- The members of an object with commas between them. -/
def compactMembers : List (String × Json) → List Char
  | [] => []
  | [(key, value)] => quoted key ++ ':' :: compact value
  | (key, value) :: members => quoted key ++ ':' :: (compact value ++ ',' :: compactMembers members)

end

/-- The start of a line at a level. -/
def newline (level : Nat) : List Char := '\n' :: List.replicate (2 * level) ' '

mutual

/-- A value over lines, where this one is at the given level. -/
def prettyAt (level : Nat) : Json → List Char
  | array [] => ['[', ']']
  | object [] => ['\x7b', '\x7d']
  | array items => '[' :: (prettyItems (level + 1) items ++ newline level ++ [']'])
  | object members =>
    '\x7b' :: (prettyMembers (level + 1) members ++ newline level ++ ['\x7d'])
  | value => scalarText value

/-- Items at a level, each on lines of its own. -/
def prettyItems (level : Nat) : List Json → List Char
  | [] => []
  | [item] => newline level ++ prettyAt level item
  | item :: items => newline level ++ prettyAt level item ++ ',' :: prettyItems level items

/-- Members at a level, each on lines of its own. -/
def prettyMembers (level : Nat) : List (String × Json) → List Char
  | [] => []
  | [(key, value)] => newline level ++ quoted key ++ ':' :: ' ' :: prettyAt level value
  | (key, value) :: members =>
    newline level ++ quoted key ++ ':' :: ' ' :: prettyAt level value ++
      ',' :: prettyMembers level members

end

/-- A value over lines. -/
def pretty (value : Json) : List Char := prettyAt 0 value

end Json

end Rendezvous
