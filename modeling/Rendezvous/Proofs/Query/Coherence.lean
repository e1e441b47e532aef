import Rendezvous.Proofs.Directory.Index
import Rendezvous.Proofs.Query.NumericOrder
/-!
# The six comparisons together

What the six comparisons say of two values is one of six patterns (`Comparison.Pattern`), which the
values decide: nothing can be told of values that are not comparable, only equality of truth values,
and all comparisons of all others, where they are those of one order. The values the other way round
have the pattern the other way round (`Comparison.comparisons_coherent`).
-/

namespace Rendezvous

namespace Value

/-- Whether there is anything to tell of two values by comparing them. -/
inductive Comparable : Value → Value → Prop
  | strings (s t : String) : Comparable (string s) (string t)
  | booleans (a b : Bool) : Comparable (boolean a) (boolean b)
  | numbers {v w : Value} (hv : v.IsNumber) (hw : w.IsNumber) : Comparable v w

theorem Comparable.symm {v w : Value} (h : v.Comparable w) : w.Comparable v := by
  cases h with
  | strings s t => exact .strings t s
  | booleans a b => exact .booleans b a
  | numbers hv hw => exact .numbers hw hv

theorem isNumber_of_asFloat? {v : Value} {x : Binary64} (h : v.asFloat? = some x)
    (hx : x ≠ .nan) : v.IsNumber := by
  cases v with
  | integer i => trivial
  | float y =>
    cases h
    exact hx
  | string s => cases h
  | boolean b => cases h

theorem IsNumber.kind_ne_boolean {v : Value} (h : v.IsNumber) : v.kind ≠ .boolean := by
  obtain ⟨i, rfl⟩ | ⟨x, rfl⟩ := h.integer_or_float <;> exact nofun

end Value

namespace Comparison

/-- What the six comparisons say together of two values. -/
inductive Pattern
  /-- None of them can be told. -/
  | incomparable
  /-- Only whether the values are the same can be told. -/
  | truth (same : Bool)
  /-- All of them can be told, by the order of the values. -/
  | ordered (o : Ordering)
deriving DecidableEq

namespace Pattern

/-- The comparisons that hold of values in an order; the others fail. -/
def holding : Ordering → List Comparison
  | .lt => [different, less, lessOrEqual]
  | .eq => [equal, greaterOrEqual, lessOrEqual]
  | .gt => [different, greater, greaterOrEqual]

/-- What a pattern says of a comparison. -/
def verdict : Pattern → Comparison → Verdict
  | incomparable, _ => .unknown
  | truth same, equal => .ofBool same
  | truth same, different => .ofBool !same
  | truth _, _ => .unknown
  | ordered o, c => .ofBool (c ∈ holding o)

/-- The pattern of the values the other way round. -/
def swap : Pattern → Pattern
  | ordered o => ordered o.swap
  | p => p

end Pattern

theorem admits_eq_mem_holding (c : Comparison) (o : Ordering) :
    c.admits o = decide (c ∈ Pattern.holding o) := by
  cases c <;> cases o <;> rfl

section Evaluate

variable {v w : Value}

theorem evaluate_of_ordered {c : Comparison} {o : Ordering} (h : c.order? v w = some o) :
    c.evaluate v w = (Pattern.ordered o).verdict c := by
  unfold evaluate
  rw [h, Pattern.verdict, ← admits_eq_mem_holding]

theorem evaluate_of_unordered {c : Comparison} (h : c.order? v w = none) :
    c.evaluate v w = Pattern.incomparable.verdict c := by
  unfold evaluate
  rw [h, Pattern.verdict]

theorem evaluate_booleans (c : Comparison) (a b : Bool) :
    c.evaluate (.boolean a) (.boolean b) = (Pattern.truth (a == b)).verdict c := by
  cases a <;> cases b <;> cases c <;> rfl

/-- The order of two numbers is the same for all comparisons, and the other way round for the
numbers the other way round. -/
theorem order?_numbers (hv : v.IsNumber) (hw : w.IsNumber) :
    ∃ o, ∀ c : Comparison, c.order? v w = some o ∧ c.order? w v = some o.swap := by
  rcases hv.integers_or_float hw with ⟨i, j, rfl, rfl⟩ | hfloat
  · refine ⟨compare i.toInt j.toInt, fun c => ⟨order?_integers c i j, ?_⟩⟩
    rw [order?_integers, Int.compare_swap]
  · obtain ⟨p, hp⟩ := hv.exists_place
    obtain ⟨q, hq⟩ := hw.exists_place
    refine ⟨compare p q, fun c => ⟨order?_places c hp hq hfloat, ?_⟩⟩
    rw [order?_places c hq hp hfloat.symm, Int.compare_swap]

/-- Values that are not comparable have no order for any comparison. -/
theorem order?_of_not_comparable (h : ¬ v.Comparable w) (c : Comparison) :
    c.order? v w = none := by
  unfold order?
  split
  · exact absurd (.strings _ _) h
  · exact absurd (.numbers trivial trivial) h
  · exact absurd (.booleans _ _) h
  · split
    · next x y hx hy =>
      -- Two doubles have no order only if one of them is no number.
      cases horder : x.compare? y with
      | none => rfl
      | some o =>
        obtain ⟨hx', hy'⟩ := (Binary64.compare?_isSome x y).mp (Option.isSome_of_eq_some horder)
        exact absurd (.numbers (Value.isNumber_of_asFloat? hx hx')
          (Value.isNumber_of_asFloat? hy hy')) h
    · rfl

end Evaluate

namespace Pattern

/-- Whether a pattern is that of two values, and says which kinds of values they are. -/
structure Describes (p : Pattern) (v w : Value) : Prop where
  forward : ∀ c : Comparison, c.evaluate v w = p.verdict c
  backward : ∀ c : Comparison, c.evaluate w v = p.swap.verdict c
  incomparable_iff : p = incomparable ↔ ¬ v.Comparable w
  truth_iff : (∃ same, p = truth same) ↔ v.kind = .boolean ∧ w.kind = .boolean

theorem describes_strings (s t : String) :
    (ordered (compare s t)).Describes (.string s) (.string t) where
  forward _ := evaluate_of_ordered rfl
  backward c := by
    have hswap : compare t s = (compare s t).swap := Std.OrientedCmp.eq_swap
    exact evaluate_of_ordered (congrArg some hswap)
  incomparable_iff := by
    constructor
    · intro h
      cases h
    · intro h
      exact absurd (.strings s t) h
  truth_iff := by
    constructor
    · rintro ⟨same, h⟩
      cases h
    · rintro ⟨h, -⟩
      cases h

theorem describes_booleans (a b : Bool) :
    (truth (a == b)).Describes (.boolean a) (.boolean b) where
  forward c := evaluate_booleans c a b
  backward c := by
    show c.evaluate (.boolean b) (.boolean a) = (truth (a == b)).verdict c
    rw [Bool.beq_comm]
    exact evaluate_booleans c b a
  incomparable_iff := by
    constructor
    · intro h
      cases h
    · intro h
      exact absurd (.booleans a b) h
  truth_iff := iff_of_true ⟨_, rfl⟩ ⟨rfl, rfl⟩

theorem exists_describes_numbers {v w : Value} (hv : v.IsNumber) (hw : w.IsNumber) :
    ∃ o, (ordered o).Describes v w := by
  obtain ⟨o, horder⟩ := order?_numbers hv hw
  refine ⟨o, fun c => evaluate_of_ordered (horder c).1, fun c => evaluate_of_ordered (horder c).2,
    ?_, ?_⟩
  · constructor
    · intro h
      cases h
    · intro h
      exact absurd (.numbers hv hw) h
  · constructor
    · rintro ⟨same, h⟩
      cases h
    · rintro ⟨h, -⟩
      exact absurd h hv.kind_ne_boolean

theorem describes_incomparable {v w : Value} (h : ¬ v.Comparable w) :
    incomparable.Describes v w where
  forward c := evaluate_of_unordered (order?_of_not_comparable h c)
  backward c := by
    have hswap : ¬ w.Comparable v := fun h' => h h'.symm
    exact evaluate_of_unordered (order?_of_not_comparable hswap c)
  incomparable_iff := iff_of_true rfl h
  truth_iff := by
    constructor
    · rintro ⟨same, htruth⟩
      cases htruth
    · rintro ⟨hv, hw⟩
      cases v <;> cases hv
      cases w <;> cases hw
      exact absurd (.booleans _ _) h

/-- Any two values have a pattern. -/
theorem exists_describes (v w : Value) : ∃ p : Pattern, p.Describes v w := by
  by_cases h : v.Comparable w
  · cases h with
    | strings s t => exact ⟨_, describes_strings s t⟩
    | booleans a b => exact ⟨_, describes_booleans a b⟩
    | numbers hv hw =>
      obtain ⟨o, hdescribes⟩ := exists_describes_numbers hv hw
      exact ⟨_, hdescribes⟩
  · exact ⟨_, describes_incomparable h⟩

/-- The six patterns can be told apart by three of the comparisons. -/
theorem eq_of_verdict {p p' : Pattern} (h : ∀ c, p.verdict c = p'.verdict c) : p = p' := by
  have hequal := h equal
  have hless := h less
  have hgreater := h greater
  obtain _ | (_ | _) | (_ | _ | _) := p <;> obtain _ | (_ | _) | (_ | _ | _) := p' <;>
    revert hequal hless hgreater <;> decide

end Pattern

/-- A text or a truth value is equal to itself alone. -/
theorem evaluate_equal_iff {v w : Value} (hkind : w.kind = .string ∨ w.kind = .boolean) :
    equal.evaluate v w = .holds ↔ v = w := by
  cases w with
  | string s => exact evaluate_equal_string
  | boolean b => exact evaluate_equal_boolean
  | integer i => rcases hkind with h | h <;> cases h
  | float x => rcases hkind with h | h <;> cases h

/-- The six comparisons of two values have exactly one of six patterns. It is the one without any
verdict exactly if the values are not comparable, one of the two of truth values exactly if both are
such, and otherwise one of less, equal and greater. The values the other way round have it the other
way round. To a text or a truth value nothing is equal but itself. -/
theorem comparisons_coherent (v w : Value) :
    ∃ p : Pattern,
      (∀ p' : Pattern, (∀ c : Comparison, c.evaluate v w = p'.verdict c) ↔ p' = p) ∧
      (p = .incomparable ↔ ¬ v.Comparable w) ∧
      ((∃ same, p = .truth same) ↔ v.kind = .boolean ∧ w.kind = .boolean) ∧
      (∀ c : Comparison, c.evaluate w v = p.swap.verdict c) ∧
      (w.kind = .string ∨ w.kind = .boolean → (equal.evaluate v w = .holds ↔ v = w)) := by
  obtain ⟨p, hp⟩ := Pattern.exists_describes v w
  refine ⟨p, ?_, hp.incomparable_iff, hp.truth_iff, hp.backward, evaluate_equal_iff⟩
  intro p'
  constructor
  · intro h
    exact Pattern.eq_of_verdict fun c => (h c).symm.trans (hp.forward c)
  · rintro rfl
    exact hp.forward

/-- The hall comes before the kitchen, so the kitchen after the hall. -/
theorem comparisons_coherent_rooms :
    (∀ c : Comparison, c.evaluate (.string "hall") (.string "kitchen") =
      (Pattern.ordered .lt).verdict c) ∧
    (∀ c : Comparison, c.evaluate (.string "kitchen") (.string "hall") =
      (Pattern.ordered .gt).verdict c) ∧
    ¬ equal.evaluate (.string "hall") (.string "kitchen") = .holds := by
  obtain ⟨p, hpattern, -, -, hswap, hequal⟩ :=
    comparisons_coherent (.string "hall") (.string "kitchen")
  have hless : ∀ c : Comparison, c.evaluate (.string "hall") (.string "kitchen") =
      (Pattern.ordered .lt).verdict c := by
    intro c
    cases c <;> decide +kernel
  obtain rfl := (hpattern _).mp hless
  exact ⟨hless, hswap, mt (hequal (.inl rfl)).mp (by decide)⟩

end Comparison

end Rendezvous
