/-!
# Verdicts

What a query says of a component: it holds, it does not, or it cannot be told, because the component
lacks the value that is asked for or has one of another kind. Conjunction and disjunction are those
of three-valued logic. Negation is that of a closed world: what does not definitely hold counts as
not holding, so a negated query always gives a definite answer.
-/

namespace Rendezvous

/-- What a query says of a component. -/
inductive Verdict
  | holds
  | fails
  | unknown
deriving DecidableEq, Inhabited, Repr

namespace Verdict

/-- The definite verdict. -/
def ofBool (b : Bool) : Verdict := if b then holds else fails

/-- Both: failure counts most, then what cannot be told. -/
def and : Verdict → Verdict → Verdict
  | fails, _ | _, fails => fails
  | unknown, _ | _, unknown => unknown
  | holds, holds => holds

/-- One of two: what holds counts most, then what cannot be told. -/
def or : Verdict → Verdict → Verdict
  | holds, _ | _, holds => holds
  | unknown, _ | _, unknown => unknown
  | fails, fails => fails

/-- Not definitely. -/
def complement (v : Verdict) : Verdict := ofBool (v ≠ holds)

/-- Both a verdict so far and all of a list; once it fails, no further one is looked at. -/
def allFrom (sofar : Verdict) : List Verdict → Verdict
  | [] => sofar
  | v :: vs => if sofar.and v = fails then fails else allFrom (sofar.and v) vs

/-- A verdict so far or one of a list; once it holds, no further one is looked at. -/
def anyFrom (sofar : Verdict) : List Verdict → Verdict
  | [] => sofar
  | v :: vs => if sofar.or v = holds then holds else anyFrom (sofar.or v) vs

/-- All of a list. -/
def all (vs : List Verdict) : Verdict := allFrom holds vs

/-- Some of a list. -/
def any (vs : List Verdict) : Verdict := anyFrom fails vs

/-- The verdicts with their names in stored form. -/
def stored : List (String × Verdict) :=
  [("True", holds), ("False", fails), ("Indeterminate", unknown)]

/-- The name of a verdict. -/
def name : Verdict → String
  | holds => "True"
  | fails => "False"
  | unknown => "Indeterminate"

end Verdict

end Rendezvous
