/-!
# UTF-8

Text as bytes. Writing is exact. Reading never fails: a byte that is part of no character stands in
the result as `none`, so that what reads a text can decide where such a byte matters. A broken
character costs one byte only, and every byte below 128 is read as the character it is.
-/

namespace Rendezvous.Text.Utf8

/-- The bytes of a character. -/
def encodeChar (c : Char) : List UInt8 :=
  let n := c.toNat
  if n < 0x80 then [n.toUInt8]
  else if n < 0x800 then [(0xC0 + n / 64).toUInt8, (0x80 + n % 64).toUInt8]
  else if n < 0x10000 then
    [(0xE0 + n / 4096).toUInt8, (0x80 + n / 64 % 64).toUInt8, (0x80 + n % 64).toUInt8]
  else
    [(0xF0 + n / 262144).toUInt8, (0x80 + n / 4096 % 64).toUInt8, (0x80 + n / 64 % 64).toUInt8,
      (0x80 + n % 64).toUInt8]

/-- The bytes of a list of characters. -/
def encode (cs : List Char) : List UInt8 := cs.flatMap encodeChar

/-- The six bits that a byte after the first one of a character carries. -/
def tailBits? (b : UInt8) : Option Nat :=
  if 0x80 ≤ b.toNat ∧ b.toNat < 0xC0 then some (b.toNat - 0x80) else none

/-- The character of a code point that needs this many bytes, and how many those are. -/
def charOf? (n width least : Nat) : Option (Char × Nat) :=
  -- A longer form than needed and a surrogate are no characters.
  if h : least ≤ n ∧ n.isValidChar then some (Char.ofNatAux n h.2, width) else none

/-- The character at the front and how many bytes it takes. -/
def first? : List UInt8 → Option (Char × Nat)
  | [] => none
  | b :: rest =>
    let n := b.toNat
    if n < 0x80 then charOf? n 1 0
    else if n < 0xC0 then none
    else if n < 0xE0 then
      match rest with
      | b1 :: _ =>
        match tailBits? b1 with
        | some t1 => charOf? ((n - 0xC0) * 64 + t1) 2 0x80
        | none => none
      | _ => none
    else if n < 0xF0 then
      match rest with
      | b1 :: b2 :: _ =>
        match tailBits? b1, tailBits? b2 with
        | some t1, some t2 => charOf? ((n - 0xE0) * 4096 + t1 * 64 + t2) 3 0x800
        | _, _ => none
      | _ => none
    else if n < 0xF8 then
      match rest with
      | b1 :: b2 :: b3 :: _ =>
        match tailBits? b1, tailBits? b2, tailBits? b3 with
        | some t1, some t2, some t3 =>
          charOf? ((n - 0xF0) * 262144 + t1 * 4096 + t2 * 64 + t3) 4 0x10000
        | _, _, _ => none
      | _ => none
    else none

/-- Reads the bytes after the first `skip`; `done` holds what was read before, last one first. -/
def decodeFrom (skip : Nat) (done : List (Option Char)) : List UInt8 → List (Option Char)
  | [] => done.reverse
  | b :: rest =>
    match skip with
    | skip + 1 => decodeFrom skip done rest
    | 0 =>
      match first? (b :: rest) with
      | some (c, width) => decodeFrom (width - 1) (some c :: done) rest
      | none => decodeFrom 0 (none :: done) rest

/-- Reads bytes as characters; a byte that is part of none is `none`. -/
def decode (bytes : List UInt8) : List (Option Char) := decodeFrom 0 [] bytes

/-- Reads bytes that are characters throughout. -/
def text? (bytes : List UInt8) : Option String :=
  ((decode bytes).mapM id).map String.ofList

end Rendezvous.Text.Utf8
