import Rendezvous.Toml.Scalar
import Rendezvous.Toml.Table
/-!
# TOML documents

A document is a list of lines, each of which gives a key a value or begins a table. `Toml.ofText?`
reads a document as a JSON object.
-/

namespace Rendezvous.Toml

/-- Passes over blanks, line ends and comments. -/
def skipGap (inComment : Bool) : List Char → Option (List Char)
  | [] => some []
  | '\r' :: '\n' :: cs => skipGap false cs
  | c :: cs =>
    if c = '\n' then skipGap false cs
    else if inComment then if isShown c then skipGap true cs else none
    else if c = '#' then skipGap true cs
    else if isBlank c then skipGap false cs
    else some (c :: cs)

/-- Passes over the end of a line, with blanks and perhaps a comment before it. -/
def skipLineEnd (inComment : Bool) : List Char → Option (List Char)
  | [] => some []
  | '\r' :: '\n' :: cs => some cs
  | c :: cs =>
    if c = '\n' then some cs
    else if inComment then if isShown c then skipLineEnd true cs else none
    else if c = '#' then skipLineEnd true cs
    else if isBlank c then skipLineEnd false cs
    else none

/-- How many keys a path may have, and how many arrays and tables may be open in a value. -/
def maxDepth : Nat := 79

/-- A path without its last key, and that key. -/
def splitLast (path : List String) : List String × String := (path.dropLast, path.getLastD "")

/-- Takes the rest of an array of at most the given number of items; its items are `done`, last one
first. -/
def takeItems (item : Taker Json) (done : List Json) : Nat → Taker Json
  | 0 => fun _ => none
  | count + 1 => fun cs => do
    match ← skipGap false cs with
    | ']' :: rest => some (.array done.reverse, rest)
    | cs =>
      let (v, cs) ← item cs
      match ← skipGap false cs with
      | ',' :: rest => takeItems item (v :: done) count rest
      | ']' :: rest => some (.array (v :: done).reverse, rest)
      | _ => none

/-- Takes a key, the sign after it and its value. -/
def takePair (item : Taker Json) (cs : List Char) : Option ((List String × Json) × List Char) := do
  let (path, cs) ← takePath maxDepth cs
  match cs with
  | '=' :: cs => (item (cs.dropWhile isBlank)).map fun r => ((path, r.1), r.2)
  | _ => none

/-- Takes the rest of a table between braces, of at most the given number of pairs. -/
def takePairs (item : Taker Json) (members : Members) : Nat → Taker Json
  | 0 => fun _ => none
  | count + 1 => fun cs => do
    let ((path, v), cs) ← takePair item cs
    let (path, key) := splitLast path
    -- Between braces a key may not be given twice either, with or without points.
    let members ← members.assign path key v .header
    match cs.dropWhile isBlank with
    | ',' :: cs => takePairs item members count cs
    | '\x7d' :: cs => some (.object (membersToJson members), cs)
    | _ => none

/-- Takes a value without parts. -/
def takeSimple (cs : List Char) : Option (Json × List Char) :=
  match cs with
  | '"' :: _ | '\'' :: _ => (takeText cs).map fun r => (.string r.1, r.2)
  | _ => takeScalar cs

/-- Takes a value in which so many arrays and tables may be open. -/
def takeValue : Nat → Taker Json
  | 0 => takeSimple
  | depth + 1 => fun cs =>
    match cs with
    | '[' :: rest => takeItems (takeValue depth) [] cs.length rest
    | '\x7b' :: rest =>
      match rest.dropWhile isBlank with
      | '\x7d' :: rest => some (.object [], rest)
      | rest => takePairs (takeValue depth) [] cs.length rest
    | cs => takeSimple cs

/-- The tables so far, and the path of the one that lines add to. -/
structure Progress where
  members : Members
  current : List String

/-- Takes a line that is not blank. -/
def takeLine (p : Progress) (cs : List Char) : Option (Progress × List Char) :=
  match cs with
  | '[' :: '[' :: rest => do
    match ← takePath maxDepth rest with
    | (path, ']' :: ']' :: rest) =>
      let (parents, key) := splitLast path
      some (⟨← p.members.beginRow parents key, path⟩, rest)
    | _ => none
  | '[' :: rest => do
    match ← takePath maxDepth rest with
    | (path, ']' :: rest) =>
      let (parents, key) := splitLast path
      some (⟨← p.members.beginTable parents key, path⟩, rest)
    | _ => none
  | cs => do
    let ((path, v), rest) ← takePair (takeValue maxDepth) cs
    let (path, key) := splitLast path
    let members ← Members.modifyAt .implied (fun origin inner => inner.assign path key v origin)
      .header p.current p.members
    some ({ p with members }, rest)

/-- Reads at most the given number of lines. -/
def readLines (p : Progress) : Nat → List Char → Option Members
  | 0, _ => none
  | count + 1, cs => do
    match ← skipGap false cs with
    | [] => some p.members
    | cs =>
      let (p, rest) ← takeLine p cs
      readLines p count (← skipLineEnd false rest)

/-- Reads a document. Moments are texts in what comes of it. -/
def ofText? (s : String) : Option Json :=
  let cs := match s.toList with
    | '\ufeff' :: cs => cs
    | cs => cs
  (readLines ⟨[], []⟩ (cs.length + 1) cs).bind fun members =>
    dated? (.object (membersToJson members))

end Rendezvous.Toml
