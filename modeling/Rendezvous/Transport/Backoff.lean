import Rendezvous.Transport.Error
/-!
# Looking for a service

A lookup is sent again and again until somebody answers, with a longer wait after each time. The
wait doubles from one time to the next until it reaches its bound or its factor the end of 32 bits.
`BackoffPolicy.lookUp` tells what comes of a lookup and what is done for it, given what comes of
each sending; a failure counts as silence.
-/

namespace Rendezvous

/-- How often lookups are sent and how long is waited between. -/
structure BackoffPolicy where
  /-- How many lookups are sent; zero counts as one. -/
  maxAttempts : Nat := 5
  /-- The wait after the first lookup. -/
  initialDelay : Duration := .ofMillis 500
  /-- The longest wait. -/
  maxDelay : Duration := .ofSeconds 8
deriving DecidableEq, Inhabited

/-- What is done in the course of a lookup. -/
inductive LookupStep
  | send (lookup : Node)
  | pause (wait : Duration)
deriving DecidableEq

namespace LookupStep

/-- The message that a step sends. -/
def message? : LookupStep → Option Node
  | send lookup => some lookup
  | pause _ => none

/-- How long a step takes. -/
def wait : LookupStep → Duration
  | send _ => ⟨0⟩
  | pause d => d

end LookupStep

/-- What came of a lookup. -/
structure LookupReport where
  result : Delivery
  /-- What was done, in order. -/
  steps : List LookupStep

namespace LookupReport

/-- The messages that were sent, in order. -/
def messages (r : LookupReport) : List Node := r.steps.filterMap LookupStep.message?

/-- How many times it was sent. -/
def sent (r : LookupReport) : Nat := r.messages.length

/-- How long was waited in all. -/
def waited (r : LookupReport) : Duration := (r.steps.map LookupStep.wait).foldr (· + ·) ⟨0⟩

end LookupReport

namespace BackoffPolicy

/-- By how much the first wait is multiplied after an attempt, counted from one: a power of two
within 32 bits, or the greatest number of 32 bits. -/
def factor (attempt : Nat) : Nat :=
  if attempt - 1 < 32 then 1 <<< (attempt - 1) else UInt32.size - 1

/-- The wait after an attempt, counted from one. -/
def delayAfter (p : BackoffPolicy) (attempt : Nat) : Duration :=
  match p.initialDelay.scale? (factor attempt) with
  | some d => min d p.maxDelay
  | none => p.maxDelay

/-- Sends a lookup for this attempt and, while there is no answer, for the `left` attempts after it;
`answers` says what comes of each. -/
def lookUpFrom (p : BackoffPolicy) (answers : Nat → Except TransportError (Option Node))
    (lookup : Node) (attempt : Nat) : Nat → LookupReport
  | 0 =>
    match answers attempt with
    | .ok (some reply) => ⟨.ok reply, [.send lookup]⟩
    | _ => ⟨.error (.lookupExhausted attempt), [.send lookup]⟩
  | left + 1 =>
    match answers attempt with
    | .ok (some reply) => ⟨.ok reply, [.send lookup]⟩
    | _ =>
      let rest := lookUpFrom p answers lookup (attempt + 1) left
      { rest with steps := .send lookup :: .pause (p.delayAfter attempt) :: rest.steps }

/-- Sends a lookup, which is a bare one unless another is given, until it is answered or the
attempts are used up. -/
def lookUp (p : BackoffPolicy) (answers : Nat → Except TransportError (Option Node))
    (lookup : Node := { name := "lookupDiscoverer" }) : LookupReport :=
  lookUpFrom p answers lookup 1 (p.maxAttempts - 1)

/-- A span in seconds and nanoseconds as an object. -/
def spanToJson (d : Duration) : Json :=
  .object [("secs", Json.natural d.seconds), ("nanos", Json.natural d.subsecondNanos)]

/-- Reads a span in seconds and nanoseconds, which may be more than a second. It has no other
fields and is not longer than the longest span. -/
def spanOfJson? : Json.Decoder Duration := fun depth j => do
  let r ← Json.record? ["secs", "nanos"] depth j
  -- Unlike other structures, a span has no room for fields that are not its own.
  let known : Bool := match j with
    | .object members => members.all fun m => ["secs", "nanos"].contains m.1
    | _ => true
  let secs ← r.required "secs" (Json.asNatural UInt64.size)
  let nanos ← r.required "nanos" (Json.asNatural UInt32.size)
  let span : Duration := ⟨secs * 1000000000 + nanos⟩
  if known ∧ span ≤ .longest then some span else none

/-- The fields in order. -/
def fieldNames : List String := ["max_attempts", "initial_delay", "max_delay"]

/-- The policy as an object. -/
def toJson (p : BackoffPolicy) : Json :=
  .object [("max_attempts", Json.natural p.maxAttempts),
    ("initial_delay", spanToJson p.initialDelay), ("max_delay", spanToJson p.maxDelay)]

/-- Reads a policy. -/
def ofJson? : Json.Decoder BackoffPolicy := fun depth j => do
  let r ← Json.record? fieldNames depth j
  let maxAttempts ← r.required "max_attempts" (Json.asNatural UInt32.size)
  let initialDelay ← r.required "initial_delay" spanOfJson?
  let maxDelay ← r.required "max_delay" spanOfJson?
  some { maxAttempts, initialDelay, maxDelay }

end BackoffPolicy

end Rendezvous
