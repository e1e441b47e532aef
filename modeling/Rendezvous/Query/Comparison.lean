import Rendezvous.Component.Value
import Rendezvous.Query.Verdict
/-!
# Comparisons

The six ways to compare a value with an operand. Texts compare with texts, by their characters, and
numbers with numbers: two integers exactly, any other two as doubles. Truth values are only equal or
different. Everything else cannot be told.
-/

namespace Rendezvous

/-- A way to compare two values. -/
inductive Comparison
  | equal
  | different
  | greater
  | greaterOrEqual
  | less
  | lessOrEqual
deriving DecidableEq, Inhabited, Repr

namespace Comparison

/-- The word for a comparison. -/
def name : Comparison → String
  | equal => "equal"
  | different => "different"
  | greater => "greater"
  | greaterOrEqual => "greaterOrEqual"
  | less => "less"
  | lessOrEqual => "lessOrEqual"

/-- Every comparison. -/
def all : List Comparison := [equal, different, greater, greaterOrEqual, less, lessOrEqual]

/-- The words and signs for a comparison. -/
def spellings : Comparison → List String
  | equal => ["equal", "=", "=="]
  | different => ["different", "!=", "<>"]
  | greater => ["greater", ">"]
  | greaterOrEqual => ["greaterOrEqual", ">="]
  | less => ["less", "<"]
  | lessOrEqual => ["lessOrEqual", "<="]

/-- Reads a word or sign. -/
def ofText (raw : String) : Except DecodeError Comparison :=
  let word := Text.trim raw
  match all.find? fun c => word ∈ c.spellings with
  | some c => .ok c
  | none => .error (.unknownVariant "comparison" word)

/-- Whether the comparison asks for more than equality. -/
def isOrdering : Comparison → Bool
  | equal | different => false
  | _ => true

/-- Whether the comparison holds of two values in the given order. -/
def admits : Comparison → Ordering → Bool
  | equal, o => o = .eq
  | different, o => o ≠ .eq
  | greater, o => o = .gt
  | greaterOrEqual, o => o ≠ .lt
  | less, o => o = .lt
  | lessOrEqual, o => o ≠ .gt

/-- The order of two values, as far as this comparison may ask for it. -/
def order? (c : Comparison) : Value → Value → Option Ordering
  | .string a, .string b => some (compare a b)
  | .integer a, .integer b => some (compare a b)
  | .boolean a, .boolean b => if c.isOrdering then none else some (compare a b)
  -- With a double among them, both numbers are taken as doubles.
  | a, b =>
    match a.asFloat?, b.asFloat? with
    | some x, some y => x.compare? y
    | _, _ => none

/-- Compares a value with an operand. -/
def evaluate (c : Comparison) (value operand : Value) : Verdict :=
  match c.order? value operand with
  | some o => .ofBool (c.admits o)
  | none => .unknown

/-- Compares a set of names, of which it is known whether it has the operand. -/
def evaluateMembership (c : Comparison) (isMember : Bool) (operand : Value) : Verdict :=
  match operand.asString?, c with
  | some _, equal => .ofBool isMember
  | some _, different => .ofBool !isMember
  | _, _ => .unknown

end Comparison

end Rendezvous
