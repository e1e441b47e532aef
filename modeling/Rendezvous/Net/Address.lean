import Rendezvous.Text.Numeral
/-!
# Socket addresses

An internet address of either version with a port. Reading goes from left to right: every reader
takes characters off the front of a list and gives back what it read with the rest, or nothing.

Of a version 6 address the longest run of zero groups is shown as `::`, the first of equally long
ones, if it has at least two groups; an address that carries one of version 4 shows it in decimal.
-/

namespace Rendezvous.Net

/-- A version 4 address: four octets. -/
structure Ipv4 where
  octets : List Nat
deriving DecidableEq

/-- A version 6 address: eight groups of sixteen bits. -/
structure Ipv6 where
  groups : List Nat
deriving DecidableEq

/-- An address and a port. A version 6 one can name a scope, zero for none. -/
inductive SocketAddress
  | v4 (address : Ipv4) (port : Nat)
  | v6 (address : Ipv6) (scope port : Nat)
deriving DecidableEq

/-- The value of a digit to base ten or sixteen. -/
def digit? (base : Nat) (c : Char) : Option Nat :=
  match Text.hexValue? c with
  | some d => if d < base then some d else none
  | none => none

/-- Takes the digits at the front. A number is less than `bound`, has at most `maxDigits` digits
where that is given, and begins with a zero only where that is allowed. -/
def takeNumber (base : Nat) (maxDigits : Option Nat) (zeroFirst : Bool) (bound : Nat)
    (cs : List Char) : Option (Nat × List Char) :=
  let isDigit := fun c => (digit? base c).isSome
  let digits := cs.takeWhile isDigit
  let value := digits.foldl (fun acc c => acc * base + (digit? base c).getD 0) 0
  let fits := match maxDigits with
    | some n => digits.length ≤ n
    | none => true
  if digits = [] ∨ fits = false ∨ bound ≤ value then none
  else if zeroFirst = false ∧ digits.head? = some '0' ∧ digits.length ≠ 1 then none
  else some (value, cs.dropWhile isDigit)

/-- Takes one given character. -/
def takeChar (c : Char) : List Char → Option (Unit × List Char)
  | c' :: cs => if c' = c then some ((), cs) else none
  | [] => none

/-- Takes the separator, unless this is the first item of a row. -/
def takeSeparator (c : Char) (index : Nat) (cs : List Char) : Option (Unit × List Char) :=
  if index = 0 then some ((), cs) else takeChar c cs

/-- Takes the octets that are left to read of a version 4 address, `count` of them. -/
def takeOctets (cs : List Char) (index : Nat) : Nat → Option ((List Nat) × List Char)
  | 0 => some ([], cs)
  | count + 1 => do
    let (_, cs) ← takeSeparator '.' index cs
    let (octet, cs) ← takeNumber 10 (some 3) false 256 cs
    let (octets, cs) ← takeOctets cs (index + 1) count
    some (octet :: octets, cs)

/-- Takes a version 4 address. -/
def takeIpv4 (cs : List Char) : Option (Ipv4 × List Char) :=
  (takeOctets cs 0 4).map fun r => (⟨r.1⟩, r.2)

/-- Takes groups of a version 6 address while there are any, `limit` at most. A version 4 address
can stand for the last two; the flag says whether one did. -/
def takeGroups (cs : List Char) (index : Nat) : Nat → List Nat × Bool × List Char
  | 0 => ([], false, cs)
  | limit + 1 =>
    let embedded : Option (Ipv4 × List Char) :=
      -- An address of version 4 needs the room of two groups.
      if limit = 0 then none
      else (takeSeparator ':' index cs).bind fun r => takeIpv4 r.2
    match embedded with
    | some (⟨[a, b, c, d]⟩, rest) => ([a * 256 + b, c * 256 + d], true, rest)
    | _ =>
      let group : Option (Nat × List Char) :=
        (takeSeparator ':' index cs).bind fun r => takeNumber 16 (some 4) true 65536 r.2
      match group with
      | some (g, rest) =>
        let more := takeGroups rest (index + 1) limit
        (g :: more.1, more.2)
      | none => ([], false, cs)

/-- Takes a version 6 address: eight groups, or fewer on the two sides of `::`. -/
def takeIpv6 (cs : List Char) : Option (Ipv6 × List Char) :=
  let (head, embedded, rest) := takeGroups cs 0 8
  if head.length = 8 then some (⟨head⟩, rest)
  -- An address of version 4 is the last thing in one of version 6.
  else if embedded then none
  else do
    let (_, rest) ← takeChar ':' rest
    let (_, rest) ← takeChar ':' rest
    let (tail, _, rest) := takeGroups rest 0 (7 - head.length)
    some (⟨head ++ List.replicate (8 - head.length - tail.length) 0 ++ tail⟩, rest)

/-- Takes a port. -/
def takePort (cs : List Char) : Option (Nat × List Char) := takeNumber 10 none true 65536 cs

/-- Takes a version 4 address and a port. -/
def takeSocketV4 (cs : List Char) : Option (SocketAddress × List Char) := do
  let (address, cs) ← takeIpv4 cs
  let (_, cs) ← takeChar ':' cs
  let (port, cs) ← takePort cs
  some (.v4 address port, cs)

/-- Takes the scope of a bracketed address, zero if it names none. -/
def takeScope (cs : List Char) : Nat × List Char :=
  match (takeChar '%' cs).bind fun r => takeNumber 10 none true UInt32.size r.2 with
  | some r => r
  | none => (0, cs)

/-- Takes a version 6 address in brackets and a port. -/
def takeSocketV6 (cs : List Char) : Option (SocketAddress × List Char) := do
  let (_, cs) ← takeChar '[' cs
  let (address, cs) ← takeIpv6 cs
  let (scope, cs) := takeScope cs
  let (_, cs) ← takeChar ']' cs
  let (_, cs) ← takeChar ':' cs
  let (port, cs) ← takePort cs
  some (.v6 address scope port, cs)

/-- Keeps what a reader took only if nothing is left. -/
def whole {α : Type} : Option (α × List Char) → Option α
  | some (a, []) => some a
  | _ => none

namespace SocketAddress

/-- Reads a version 4 address with a port. -/
def v4OfText? (s : String) : Option SocketAddress := whole (takeSocketV4 s.toList)

/-- Reads an address of either version with a port. -/
def ofText? (s : String) : Option SocketAddress :=
  match v4OfText? s with
  | some a => some a
  | none => whole (takeSocketV6 s.toList)

end SocketAddress

/-- The texts with a mark between neighbours. -/
def joinWith (mark : Char) : List (List Char) → List Char
  | [] => []
  | [cs] => cs
  | cs :: rest => cs ++ mark :: joinWith mark rest

/-- Octets in decimal with points between them. -/
def octetsText (octets : List Nat) : List Char :=
  joinWith '.' (octets.map fun n => (Text.ofNat n).toList)

/-- A group in hexadecimal without leading zeros. -/
def groupText (n : Nat) : List Char := (Nat.toDigits 16 n).map Char.toLower

/-- The lengths of the runs of zeros that begin at each group. -/
def zeroRuns : List Nat → List Nat
  | [] => []
  | g :: gs =>
    let rest := zeroRuns gs
    (if g = 0 then 1 + rest.headD 0 else 0) :: rest

/-- A version 6 address as text. -/
def Ipv6.text (a : Ipv6) : List Char :=
  match a.groups with
  | [0, 0, 0, 0, 0, 0xFFFF, high, low] =>
    "::ffff:".toList ++ octetsText [high / 256, high % 256, low / 256, low % 256]
  | groups =>
    let runs := zeroRuns groups
    let longest := runs.foldl max 0
    if longest < 2 then joinWith ':' (groups.map groupText)
    else
      -- Of equally long runs the first is shortened.
      let start := runs.findIdx (· = longest)
      joinWith ':' ((groups.take start).map groupText) ++ ':' :: ':' ::
        joinWith ':' ((groups.drop (start + longest)).map groupText)

namespace SocketAddress

/-- The port. -/
def port : SocketAddress → Nat
  | v4 _ port => port
  | v6 _ _ port => port

/-- The address without its port and scope, as text. -/
def hostText : SocketAddress → String
  | v4 a _ => String.ofList (octetsText a.octets)
  | v6 a _ _ => String.ofList a.text

/-- Whether the address is the one that stands for any. -/
def isUnspecified : SocketAddress → Bool
  | v4 a _ => a.octets.all (· = 0)
  | v6 a _ _ => a.groups.all (· = 0)

/-- Address and port as text. -/
def text : SocketAddress → String
  | v4 a port => String.ofList (octetsText a.octets ++ ':' :: (Text.ofNat port).toList)
  | v6 a scope port =>
    let scopeText := if scope = 0 then [] else '%' :: (Text.ofNat scope).toList
    String.ofList ('[' :: a.text ++ scopeText ++ ']' :: ':' :: (Text.ofNat port).toList)

end SocketAddress

end Rendezvous.Net
