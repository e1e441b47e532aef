import Mathlib.Order.Compare
import Rendezvous.Proofs.Number.Whole
import Rendezvous.Query.Comparison
/-!
# Numbers in comparisons

Two integers are compared exactly, and an integer with a double as the double nearest to it. So two
integers that have the same nearest double both equal this double, although they differ
(`Comparison.Blurs`). This is the only way in which `lessOrEqual` and `equal` are not transitive on
numbers, and it takes an integer beyond `2 ^ 53` (`Comparison.numbers_ordered`).
-/

namespace Rendezvous

namespace Value

/-- Whether a value is a number. -/
def IsNumber : Value → Prop
  | integer _ => True
  | float x => x ≠ .nan
  | _ => False

/-- The place of a number among the doubles, by the double nearest to it. -/
def place? (v : Value) : Option Int := v.asFloat?.bind Binary64.position?

theorem place?_integer (i : Int64) : (integer i).place? = some (Binary64.place i.toInt) :=
  Binary64.position?_ofInt i.toInt

theorem IsNumber.exists_place {v : Value} (h : v.IsNumber) : ∃ p, v.place? = some p := by
  cases v with
  | string s => cases h
  | integer i => exact ⟨_, place?_integer i⟩
  | float x =>
    cases x with
    | nan => exact absurd rfl h
    | number negative rank => exact ⟨_, rfl⟩
  | boolean b => cases h

theorem IsNumber.integer_or_float {v : Value} (h : v.IsNumber) :
    (∃ i, v = integer i) ∨ ∃ x, v = float x := by
  cases v with
  | string s => cases h
  | integer i => exact .inl ⟨i, rfl⟩
  | float x => exact .inr ⟨x, rfl⟩
  | boolean b => cases h

/-- Two numbers are integers, or there is a double among them. -/
theorem IsNumber.integers_or_float {v w : Value} (hv : v.IsNumber) (hw : w.IsNumber) :
    (∃ i j, v = integer i ∧ w = integer j) ∨ v.kind = .float ∨ w.kind = .float := by
  obtain ⟨i, rfl⟩ | ⟨x, rfl⟩ := hv.integer_or_float
  · obtain ⟨j, rfl⟩ | ⟨y, rfl⟩ := hw.integer_or_float
    · exact .inl ⟨i, j, rfl, rfl⟩
    · exact .inr (.inr rfl)
  · exact .inr (.inl rfl)

end Value

namespace Comparison

theorem compare_toInt (i j : Int64) : compare i j = compare i.toInt j.toInt := by
  simp [compare, compareOfLessAndEq, Int64.lt_iff_toInt_lt, Int64.toInt_inj]

theorem order?_integers (c : Comparison) (i j : Int64) :
    c.order? (.integer i) (.integer j) = some (compare i.toInt j.toInt) :=
  congrArg some (compare_toInt i j)

/-- With a double among them, numbers are in the order of their places. -/
theorem order?_places (c : Comparison) {v w : Value} {p q : Int} (hv : v.place? = some p)
    (hw : w.place? = some q) (hfloat : v.kind = .float ∨ w.kind = .float) :
    c.order? v w = some (compare p q) := by
  obtain ⟨x, hx, hp⟩ := Option.bind_eq_some_iff.mp hv
  obtain ⟨y, hy, hq⟩ := Option.bind_eq_some_iff.mp hw
  have hcompare : x.compare? y = some (compare p q) := by
    unfold Binary64.compare?
    rw [hp, hq]
  unfold order?
  split
  · cases hx
  · rcases hfloat with h | h <;> cases h
  · cases hx
  · rw [hx, hy]
    exact hcompare

theorem evaluate_eq_holds {c : Comparison} {v w : Value} {o : Ordering}
    (h : c.order? v w = some o) : c.evaluate v w = .holds ↔ c.admits o = true := by
  unfold evaluate
  rw [h]
  show Verdict.ofBool (c.admits o) = .holds ↔ _
  cases c.admits o <;> simp [Verdict.ofBool]

/-- Whether a value is found to be at most another. -/
def AtMost (v w : Value) : Prop := lessOrEqual.evaluate v w = .holds

/-- Whether a value is found to be equal to another. -/
def Equals (v w : Value) : Prop := equal.evaluate v w = .holds

theorem atMost_iff {v w : Value} {p q : Int} (h : lessOrEqual.order? v w = some (compare p q)) :
    AtMost v w ↔ p ≤ q := by
  rw [AtMost, evaluate_eq_holds h]
  exact decide_eq_true_iff.trans compare_le_iff_le

theorem equals_iff {v w : Value} {p q : Int} (h : equal.order? v w = some (compare p q)) :
    Equals v w ↔ p = q := by
  rw [Equals, evaluate_eq_holds h]
  exact decide_eq_true_iff.trans compare_eq_iff_eq

theorem atMost_integers {i j : Int64} :
    AtMost (.integer i) (.integer j) ↔ i.toInt ≤ j.toInt :=
  atMost_iff (order?_integers lessOrEqual i j)

theorem equals_integers {i j : Int64} : Equals (.integer i) (.integer j) ↔ i.toInt = j.toInt :=
  equals_iff (order?_integers equal i j)

section Numbers

variable {a b c : Value} {p q r : Int}

theorem atMost_places (hp : a.place? = some p) (hq : b.place? = some q)
    (hfloat : a.kind = .float ∨ b.kind = .float) : AtMost a b ↔ p ≤ q :=
  atMost_iff (order?_places lessOrEqual hp hq hfloat)

theorem equals_places (hp : a.place? = some p) (hq : b.place? = some q)
    (hfloat : a.kind = .float ∨ b.kind = .float) : Equals a b ↔ p = q :=
  equals_iff (order?_places equal hp hq hfloat)

/-- What is at most another is not behind it among the doubles either. -/
theorem AtMost.place_le (h : AtMost a b) (ha : a.IsNumber) (hb : b.IsNumber)
    (hp : a.place? = some p) (hq : b.place? = some q) : p ≤ q := by
  rcases ha.integers_or_float hb with ⟨i, j, rfl, rfl⟩ | hfloat
  · rw [Value.place?_integer] at hp hq
    cases hp
    cases hq
    exact Binary64.place_mono (atMost_integers.mp h)
  · exact (atMost_places hp hq hfloat).mp h

theorem Equals.place_eq (h : Equals a b) (ha : a.IsNumber) (hb : b.IsNumber)
    (hp : a.place? = some p) (hq : b.place? = some q) : p = q := by
  rcases ha.integers_or_float hb with ⟨i, j, rfl, rfl⟩ | hfloat
  · rw [Value.place?_integer] at hp hq
    cases hp
    cases hq
    exact congrArg Binary64.place (equals_integers.mp h)
  · exact (equals_places hp hq hfloat).mp h

/-- Whether two integers, of which the first is the greater one, are as doubles both equal to the
double between them. -/
def Blurs (a b c : Value) : Prop :=
  ∃ i j x, a = .integer i ∧ b = .float x ∧ c = .integer j ∧ j.toInt < i.toInt ∧
    (Binary64.ofInt i.toInt).compare? x = some .eq ∧
    (Binary64.ofInt j.toInt).compare? x = some .eq

theorem compare?_ofInt_eq_iff {i : Int} {x : Binary64} (hq : x.position? = some q) :
    (Binary64.ofInt i).compare? x = some .eq ↔ Binary64.place i = q := by
  unfold Binary64.compare?
  rw [Binary64.position?_ofInt, hq]
  exact Option.some_inj.trans compare_eq_iff_eq

theorem blurs_iff {i j : Int64} {x : Binary64} (hq : x.position? = some q) :
    Blurs (.integer i) (.float x) (.integer j) ↔
      j.toInt < i.toInt ∧ Binary64.place i.toInt = q ∧ Binary64.place j.toInt = q := by
  constructor
  · rintro ⟨i', j', x', hi, hx, hj, hlt, hsame, hsame'⟩
    cases hi
    cases hx
    cases hj
    exact ⟨hlt, (compare?_ofInt_eq_iff hq).mp hsame, (compare?_ofInt_eq_iff hq).mp hsame'⟩
  · rintro ⟨hlt, hsame, hsame'⟩
    exact ⟨i, j, x, rfl, rfl, rfl, hlt, (compare?_ofInt_eq_iff hq).mpr hsame,
      (compare?_ofInt_eq_iff hq).mpr hsame'⟩

/-- Blurred integers are not both doubles themselves. -/
theorem Blurs.large (h : Blurs a b c) :
    ∃ i j, a = .integer i ∧ c = .integer j ∧ 2 ^ 53 < max i.toInt.natAbs j.toInt.natAbs := by
  obtain ⟨i, j, x, rfl, rfl, rfl, hlt, hsame, hsame'⟩ := h
  refine ⟨i, j, rfl, rfl, ?_⟩
  have hbinade : 2 * Binary64.binade = 2 ^ 53 := by decide
  have hx : x ≠ .nan := ((Binary64.compare?_isSome _ _).mp (Option.isSome_of_eq_some hsame)).2
  obtain ⟨q, hq⟩ := Value.IsNumber.exists_place (v := .float x) hx
  have hplace : Binary64.place i.toInt = Binary64.place j.toInt :=
    ((compare?_ofInt_eq_iff hq).mp hsame).trans ((compare?_ofInt_eq_iff hq).mp hsame').symm
  by_contra hsmall
  have heq := Binary64.eq_of_place (by omega) (by omega) hplace
  omega

/-- Of numbers, `lessOrEqual` is transitive but where it blurs two integers. -/
theorem atMost_breaks_iff (ha : a.IsNumber) (hb : b.IsNumber) (hc : c.IsNumber) :
    AtMost a b ∧ AtMost b c ∧ ¬ AtMost a c ↔ Blurs a b c := by
  obtain ⟨p, hp⟩ := ha.exists_place
  obtain ⟨q, hq⟩ := hb.exists_place
  obtain ⟨r, hr⟩ := hc.exists_place
  constructor
  · rintro ⟨hab, hbc, hac⟩
    have hpq : p ≤ q := hab.place_le ha hb hp hq
    have hqr : q ≤ r := hbc.place_le hb hc hq hr
    rcases ha.integers_or_float hc with ⟨i, j, rfl, rfl⟩ | hfloat
    · have hlt : j.toInt < i.toInt := Int.not_le.mp (mt atMost_integers.mpr hac)
      obtain ⟨k, rfl⟩ | ⟨x, rfl⟩ := hb.integer_or_float
      · have hik := atMost_integers.mp hab
        have hkj := atMost_integers.mp hbc
        omega
      · -- The place of the greater integer cannot be before that of the lesser one.
        have hmono := Binary64.place_mono (Int.le_of_lt hlt)
        rw [Value.place?_integer] at hp hr
        cases hp
        cases hr
        exact (blurs_iff hq).mpr ⟨hlt, by omega, by omega⟩
    · exact absurd ((atMost_places hp hr hfloat).mpr (Int.le_trans hpq hqr)) hac
  · intro h
    have hshape := h
    obtain ⟨i, j, x, rfl, rfl, rfl, -⟩ := hshape
    obtain ⟨hlt, hi, hj⟩ := (blurs_iff hq).mp h
    refine ⟨?_, ?_, fun hac => ?_⟩
    · exact (atMost_places (Value.place?_integer i) hq (.inr rfl)).mpr (Int.le_of_eq hi)
    · exact (atMost_places hq (Value.place?_integer j) (.inl rfl)).mpr (Int.le_of_eq hj.symm)
    · have hle := atMost_integers.mp hac
      omega

/-- Of numbers, `equal` is transitive but where it blurs two integers. -/
theorem equals_breaks_iff (ha : a.IsNumber) (hb : b.IsNumber) (hc : c.IsNumber) :
    Equals a b ∧ Equals b c ∧ ¬ Equals a c ↔ Blurs a b c ∨ Blurs c b a := by
  obtain ⟨p, hp⟩ := ha.exists_place
  obtain ⟨q, hq⟩ := hb.exists_place
  obtain ⟨r, hr⟩ := hc.exists_place
  constructor
  · rintro ⟨hab, hbc, hac⟩
    have hpq : p = q := hab.place_eq ha hb hp hq
    have hqr : q = r := hbc.place_eq hb hc hq hr
    rcases ha.integers_or_float hc with ⟨i, j, rfl, rfl⟩ | hfloat
    · have hne : i.toInt ≠ j.toInt := mt equals_integers.mpr hac
      obtain ⟨k, rfl⟩ | ⟨x, rfl⟩ := hb.integer_or_float
      · exact absurd ((equals_integers.mp hab).trans (equals_integers.mp hbc)) hne
      · rw [Value.place?_integer] at hp hr
        cases hp
        cases hr
        rw [blurs_iff hq, blurs_iff hq]
        omega
    · exact absurd ((equals_places hp hr hfloat).mpr (hpq.trans hqr)) hac
  · intro h
    have hblurred : ∃ i j x, a = .integer i ∧ b = .float x ∧ c = .integer j := by
      obtain ⟨i, j, x, hi, hx, hj, -⟩ | ⟨i, j, x, hi, hx, hj, -⟩ := h
      · exact ⟨i, j, x, hi, hx, hj⟩
      · exact ⟨j, i, x, hj, hx, hi⟩
    obtain ⟨i, j, x, rfl, rfl, rfl⟩ := hblurred
    rw [blurs_iff hq, blurs_iff hq] at h
    rw [equals_integers, equals_places (Value.place?_integer i) hq (.inr rfl),
      equals_places hq (Value.place?_integer j) (.inl rfl)]
    omega

theorem atMost_total (ha : a.IsNumber) (hb : b.IsNumber) : AtMost a b ∨ AtMost b a := by
  rcases ha.integers_or_float hb with ⟨i, j, rfl, rfl⟩ | hfloat
  · rw [atMost_integers, atMost_integers]
    exact Int.le_total _ _
  · obtain ⟨p, hp⟩ := ha.exists_place
    obtain ⟨q, hq⟩ := hb.exists_place
    rw [atMost_places hp hq hfloat, atMost_places hq hp hfloat.symm]
    exact Int.le_total p q

end Numbers

/-- Of two numbers one is at most the other. What is at most a number that is at most a third is at
most the third, and what equals a number that equals a third equals the third, but for two
different integers that as doubles both equal a double, one of which is beyond `2 ^ 53`: these it
does break. -/
theorem numbers_ordered (a b c : Value) (ha : a.IsNumber) (hb : b.IsNumber) (hc : c.IsNumber) :
    let le := fun v w => lessOrEqual.evaluate v w = .holds
    let eq := fun v w => equal.evaluate v w = .holds
    (le a b ∨ le b a) ∧
    (le a b ∧ le b c ∧ ¬ le a c ↔ Blurs a b c) ∧
    (eq a b ∧ eq b c ∧ ¬ eq a c ↔ Blurs a b c ∨ Blurs c b a) ∧
    (Blurs a b c →
      ∃ i j, a = .integer i ∧ c = .integer j ∧ 2 ^ 53 < max i.toInt.natAbs j.toInt.natAbs) :=
  ⟨atMost_total ha hb, atMost_breaks_iff ha hb hc, equals_breaks_iff ha hb hc, Blurs.large⟩

/-- The least positive integer that is no double. -/
def leastBlurred : Value := .integer 9007199254740993

/-- The double nearest to it. -/
def blurring : Value := .float (Binary64.ofInt 9007199254740992)

/-- The integer that is this double. -/
def blurredWith : Value := .integer 9007199254740992

/-- The two integers differ, and yet both equal the double. -/
theorem numbers_ordered_blurred :
    leastBlurred.IsNumber ∧ blurring.IsNumber ∧ blurredWith.IsNumber ∧
    Blurs leastBlurred blurring blurredWith ∧
    ¬ (lessOrEqual.evaluate leastBlurred blurredWith = .holds) := by
  have hfloat : blurring.IsNumber := by
    show Binary64.ofInt 9007199254740992 ≠ .nan
    decide +kernel
  obtain ⟨-, breaks, -, -⟩ :=
    numbers_ordered leastBlurred blurring blurredWith trivial hfloat trivial
  have hbroken : lessOrEqual.evaluate leastBlurred blurring = .holds ∧
      lessOrEqual.evaluate blurring blurredWith = .holds ∧
      ¬ lessOrEqual.evaluate leastBlurred blurredWith = .holds := by decide +kernel
  exact ⟨trivial, hfloat, trivial, breaks.mp hbroken, hbroken.2.2⟩

/-- Neither `lessOrEqual` nor `equal` is transitive on numbers. -/
theorem not_transitive_blurred :
    (lessOrEqual.evaluate leastBlurred blurring = .holds ∧
      lessOrEqual.evaluate blurring blurredWith = .holds ∧
      lessOrEqual.evaluate leastBlurred blurredWith = .fails) ∧
    equal.evaluate leastBlurred blurring = .holds ∧
    equal.evaluate blurring blurredWith = .holds ∧
    equal.evaluate leastBlurred blurredWith = .fails := by
  decide +kernel

end Comparison

end Rendezvous
