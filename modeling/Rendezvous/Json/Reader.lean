import Rendezvous.Json.Numeral
/-!
# Reading JSON

The reader is a machine that takes one character at a time (`Json.Machine.step`). What it has read
of the arrays and objects that are still open lies in a stack of frames, so the depth of a value is
bounded by nothing here; `Json.read` runs the machine over a whole text.

A character that is none, `none` in the input, may stand in a string, which then is unreadable, and
nowhere else.
-/

namespace Rendezvous.Json

/-- An open array or object and its parts so far, the last one first. A key that cannot be read is
`none`. -/
inductive Frame
  | array (items : List Json)
  | object (members : List (Option String × Json))
  /-- An object of which one member is read up to its value. -/
  | member (members : List (Option String × Json)) (key : Option String)

/-- Where in an escape sequence the reader is. -/
inductive Escape
  | outside
  | begun
  /-- After the letter u and some of its four digits. -/
  | code (digits value : Nat)

/-- A string that is being read. -/
structure Quote where
  /-- Whether it is the key of a member. -/
  isKey : Bool
  /-- Its characters, the last one first. -/
  chars : List Char
  readable : Bool
  /-- The first half of a surrogate pair, if one was just read. -/
  half : Option Nat
  escape : Escape

/-- What the reader is in the middle of. -/
inductive Mode
  /-- Before a value, where the array may also end if `closable`. -/
  | value (closable : Bool)
  /-- Before a key, where the object may also end if `closable`. -/
  | key (closable : Bool)
  | colon
  | quote (q : Quote)
  | number (n : Numeral) (phase : Phase)
  /-- Within a word of which these characters are to come. -/
  | word (rest : List Char) (worth : Json)
  /-- After a part of the innermost open array or object. -/
  | after
  /-- After the whole value. -/
  | finished (value : Json)

/-- The state of the reader. -/
structure Machine where
  frames : List Frame
  mode : Mode

namespace Quote

/-- A string with one character more, which makes a half of a pair before it a lone one. -/
def push (q : Quote) (c : Char) : Quote :=
  { q with chars := c :: q.chars, readable := q.readable && q.half.isNone, half := none,
           escape := .outside }

/-- A string that cannot be read because of what stands here. -/
def spoil (q : Quote) : Quote := { q with readable := false, half := none, escape := .outside }

/-- A string with a character given by its code of 16 bits. -/
def pushCode (q : Quote) (code : Nat) : Quote :=
  if 0xD800 ≤ code ∧ code < 0xDC00 then
    { q with readable := q.readable && q.half.isNone, half := some code, escape := .outside }
  else if 0xDC00 ≤ code ∧ code < 0xE000 then
    match q.half with
    | some high =>
      { q with chars := Char.ofNat (0x10000 + (high - 0xD800) * 0x400 + (code - 0xDC00)) :: q.chars,
               half := none, escape := .outside }
    | none => q.spoil
  else q.push (Char.ofNat code)

end Quote

namespace Machine

/-- Whether a character may stand between the parts of a value. -/
def isBlank (c : Char) : Bool := c = ' ' ∨ c = '\n' ∨ c = '\t' ∨ c = '\r'

/-- The reader before the first character. -/
def start : Machine := ⟨[], .value false⟩

/-- Puts a complete value where it belongs. -/
def complete (v : Json) : List Frame → Machine
  | [] => ⟨[], .finished v⟩
  | .array items :: frames => ⟨.array (v :: items) :: frames, .after⟩
  | .member members key :: frames => ⟨.object ((key, v) :: members) :: frames, .after⟩
  -- An object takes a value only behind a key.
  | .object members :: frames => ⟨.object members :: frames, .after⟩

/-- The object with the given members, last one first, if all its keys can be read. -/
def objectOf (members : List (Option String × Json)) : Json :=
  match members.reverse.mapM fun m => m.1.map fun key => (key, m.2) with
  | some members => .object members
  | none => .unreadable

/-- A string of which nothing is read. -/
def opening (isKey : Bool) : Mode := .quote ⟨isKey, [], true, none, .outside⟩

/-- Reads the first character of a value. -/
def stepValue (frames : List Frame) (c : Char) : Option Machine :=
  if c = '\x7b' then some ⟨.object [] :: frames, .key true⟩
  else if c = '[' then some ⟨.array [] :: frames, .value true⟩
  else if c = '"' then some ⟨frames, opening false⟩
  else if c = 't' then some ⟨frames, .word ['r', 'u', 'e'] (.bool true)⟩
  else if c = 'f' then some ⟨frames, .word ['a', 'l', 's', 'e'] (.bool false)⟩
  else if c = 'n' then some ⟨frames, .word ['u', 'l', 'l'] .null⟩
  else if c = '-' then some ⟨frames, .number (Numeral.start true) .sign⟩
  else ((Numeral.start false).extend .sign c).map fun r => ⟨frames, .number r.1 r.2⟩

/-- Reads a character after a complete part of the innermost frame. -/
def stepAfter (frames : List Frame) (c : Char) : Option Machine :=
  if isBlank c then some ⟨frames, .after⟩
  else
    match frames with
    | .array items :: outer =>
      if c = ',' then some ⟨frames, .value false⟩
      else if c = ']' then some (complete (.array items.reverse) outer)
      else none
    | .object members :: outer =>
      if c = ',' then some ⟨frames, .key false⟩
      else if c = '\x7d' then some (complete (objectOf members) outer)
      else none
    | _ => none

/-- Reads a character after a complete value, which a number is known to be only there. -/
def stepPast (m : Machine) (c : Char) : Option Machine :=
  match m.mode with
  | .finished _ => if isBlank c then some m else none
  | _ => stepAfter m.frames c

/-- The end of a string. -/
def closeQuote (q : Quote) (frames : List Frame) : Option Machine :=
  let text? := if q.readable ∧ q.half = none then some (String.ofList q.chars.reverse) else none
  if q.isKey then
    match frames with
    | .object members :: outer => some ⟨.member members text? :: outer, .colon⟩
    | _ => none
  else
    match text? with
    | some s => some (complete (.string s) frames)
    | none => some (complete .unreadable frames)

/-- The character that a letter after a backslash stands for. -/
def escaped? (c : Char) : Option Char :=
  if c = '"' ∨ c = '\\' ∨ c = '/' then some c
  else if c = 'b' then some '\x08'
  else if c = 'f' then some '\x0c'
  else if c = 'n' then some '\n'
  else if c = 'r' then some '\r'
  else if c = 't' then some '\t'
  else none

/-- Reads a character of a string. -/
def stepQuote (q : Quote) (frames : List Frame) (c : Char) : Option Machine :=
  match q.escape with
  | .outside =>
    if c = '"' then closeQuote q frames
    else if c = '\\' then some ⟨frames, .quote { q with escape := .begun }⟩
    -- Control characters must be escaped.
    else if c.toNat < 0x20 then none
    else some ⟨frames, .quote (q.push c)⟩
  | .begun =>
    if c = 'u' then some ⟨frames, .quote { q with escape := .code 0 0 }⟩
    else (escaped? c).map fun c => ⟨frames, .quote (q.push c)⟩
  | .code digits value =>
    match Text.hexValue? c with
    | some d =>
      let value := value * 16 + d
      if digits = 3 then some ⟨frames, .quote (q.pushCode value)⟩
      else some ⟨frames, .quote { q with escape := .code (digits + 1) value }⟩
    | none => none

/-- Reads one character. -/
def step (m : Machine) : Option Char → Option Machine
  | none =>
    -- What is no character spoils a string, and fits nowhere else.
    match m.mode with
    | .quote q =>
      match q.escape with
      | .outside => some ⟨m.frames, .quote q.spoil⟩
      | _ => none
    | _ => none
  | some c =>
    match m.mode with
    | .value closable =>
      if isBlank c then some m
      else
        match closable, m.frames with
        | true, .array _ :: outer =>
          if c = ']' then some (complete (.array []) outer) else stepValue m.frames c
        | _, _ => stepValue m.frames c
    | .key closable =>
      if isBlank c then some m
      else if c = '"' then some ⟨m.frames, opening true⟩
      else if closable ∧ c = '\x7d' then some (complete (.object []) (m.frames.drop 1))
      else none
    | .colon =>
      if isBlank c then some m else if c = ':' then some ⟨m.frames, .value false⟩ else none
    | .quote q => stepQuote q m.frames c
    | .number n phase =>
      match n.extend phase c with
      | some r => some ⟨m.frames, .number r.1 r.2⟩
      -- A number has no end of its own: the character after it shows it.
      | none => if phase.isEnd then stepPast (complete n.value m.frames) c else none
    | .word rest worth =>
      match rest with
      | r :: rest =>
        if c ≠ r then none
        else if rest.isEmpty then some (complete worth m.frames)
        else some ⟨m.frames, .word rest worth⟩
      | [] => none
    | .after | .finished _ => stepPast m c

/-- The value that has been read, if it is complete. -/
def result? (m : Machine) : Option Json :=
  match m.mode, m.frames with
  | .finished v, _ => some v
  | .number n phase, [] => if phase.isEnd then some n.value else none
  | _, _ => none

/-- Reads characters until one does not fit. -/
def run (m : Machine) : List (Option Char) → Option Machine
  | [] => some m
  | c :: cs =>
    match m.step c with
    | some m => run m cs
    | none => none

end Machine

/-- Reads a text, some characters of which may be broken. -/
def read (cs : List (Option Char)) : Option Json := (Machine.start.run cs).bind Machine.result?

/-- Reads a text. -/
def ofText? (s : String) : Option Json := read (s.toList.map some)

end Rendezvous.Json
