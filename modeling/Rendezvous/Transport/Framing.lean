import Rendezvous.Message.Json
import Rendezvous.Text.Utf8
import Rendezvous.Transport.Error
/-!
# Messages on a stream

A stream carries one message to a line, as JSON in one line. `receive` takes the next message off
the front of the bytes of a stream: it passes over blank lines, gives up at a line that is longer
than the limit, which leaves the stream in the middle of a line, and reports a line that is no
message, after which the next line can be read.
-/

namespace Rendezvous.Framing

/-- The longest line that is read without another limit, not counting its end. -/
def defaultLimit : Nat := 1024 * 1024

/-- The byte that ends a line. -/
def lineEnd : UInt8 := 10

/-- Whether a byte at the end of a line is passed over. -/
def isBlank (b : UInt8) : Bool := b = 32 ∨ b = 9 ∨ b = 10 ∨ b = 12 ∨ b = 13

/-- A line without the blanks at its ends. -/
def trim (line : List UInt8) : List UInt8 :=
  ((line.dropWhile isBlank).reverse.dropWhile isBlank).reverse

/-- The bytes up to the end of a line, the last one first, but `budget` at most; whether the end was
found among them; and the bytes after it. -/
def takeLine (budget : Nat) (taken : List UInt8) :
    List UInt8 → List UInt8 × Bool × List UInt8
  | [] => (taken, false, [])
  | b :: rest =>
    match budget with
    | 0 => (taken, false, b :: rest)
    | budget + 1 => if b = lineEnd then (taken, true, rest) else takeLine budget (b :: taken) rest

/-- What comes next on a stream. -/
inductive Arrival
  | message (n : Node)
  /-- A line that is no message. -/
  | garbled
  | tooLong
  /-- The end of the stream. -/
  | ended
deriving DecidableEq

/-- What somebody is told who reads lines of at most `limit` bytes: a message, that there is none any
more, or why none can be given. -/
def Arrival.result (limit : Nat) : Arrival → Except TransportError (Option Node)
  | message n => .ok (some n)
  | garbled => .error (.codec "")
  | tooLong => .error (.messageTooLarge limit)
  | ended => .ok none

/-- Reads a line as a message. -/
def ofLine (line : List UInt8) : Arrival :=
  match Node.ofBytes? (Text.Utf8.decode line) with
  | some n => .message n
  | none => .garbled

theorem takeLine_length {budget : Nat} {taken bytes : List UInt8} :
    (takeLine budget taken bytes).2.2.length ≤ bytes.length := by
  induction bytes generalizing budget taken with
  | nil => simp [takeLine]
  | cons b rest ih =>
    cases budget with
    | zero => simp [takeLine]
    | succ budget =>
      simp only [takeLine]
      split
      · simp
      · exact Nat.le_succ_of_le ih

theorem takeLine_length_lt {budget : Nat} {taken bytes : List UInt8} (h : bytes ≠ []) :
    (takeLine (budget + 1) taken bytes).2.2.length < bytes.length := by
  cases bytes with
  | nil => exact absurd rfl h
  | cons b rest =>
    simp only [takeLine]
    split
    · simp
    · exact Nat.lt_succ_of_le takeLine_length

/-- The next message on a stream and what is left of the stream. -/
def receive (limit : Nat) (bytes : List UInt8) : Arrival × List UInt8 :=
  if h : bytes = [] then (.ended, [])
  else
    -- One byte past the limit tells a line that is too long from one that just fits.
    let line := takeLine (limit + 1) [] bytes
    have : line.2.2.length < bytes.length := takeLine_length_lt h
    if line.2.1 = false ∧ limit < line.1.length then (.tooLong, line.2.2)
    else
      let content := trim line.1.reverse
      if content.isEmpty then receive limit line.2.2 else (ofLine content, line.2.2)
termination_by bytes.length

theorem receive_length_lt {limit : Nat} {bytes : List UInt8} (h : bytes ≠ []) :
    (receive limit bytes).2.length < bytes.length := by
  fun_induction receive limit bytes with
  | case1 => simp at h
  | case2 bytes hne line hlt => exact hlt
  | case3 bytes hne line hlt _ content hblank ih =>
    by_cases hrest : line.2.2 = []
    · rw [hrest, receive]
      simpa [hrest] using hlt
    · exact Nat.lt_trans (ih hrest) hlt
  | case4 bytes hne line hlt => exact hlt

/-- Everything that arrives on a stream, up to its end or to a line that is too long, and what is
left of the stream then. -/
def readOut (limit : Nat) (bytes : List UInt8) : List Arrival × List UInt8 :=
  if h : bytes = [] then ([.ended], [])
  else
    let next := receive limit bytes
    have : next.2.length < bytes.length := receive_length_lt h
    match next.1 with
    | .tooLong => ([.tooLong], next.2)
    | .ended => ([.ended], next.2)
    | arrival =>
      let (arrivals, rest) := readOut limit next.2
      (arrival :: arrivals, rest)
termination_by bytes.length

/-- Everything that arrives on a stream, up to its end or to a line that is too long. -/
def receiveAll (limit : Nat) (bytes : List UInt8) : List Arrival := (readOut limit bytes).1

/-- What somebody who has sent a message to an endpoint gets of the bytes that come back. -/
def delivery (endpoint : Endpoint) (bytes : List UInt8) : Delivery :=
  match (receive defaultLimit bytes).1.result defaultLimit with
  | .ok (some n) => .ok n
  | .ok none => .error (.closed endpoint)
  | .error e => .error e

/-- A message as a line of a stream. -/
def line (n : Node) : List Char := n.toJson.compact ++ ['\n']

/-- A message as the bytes of a line. -/
def bytes (n : Node) : List UInt8 := Text.Utf8.encode (line n)

end Rendezvous.Framing
