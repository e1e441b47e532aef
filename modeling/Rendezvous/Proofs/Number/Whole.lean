import Rendezvous.Proofs.Number.Rounding
/-!
# Whole numbers as doubles

Rounding keeps the order of fractions (`Binary64.nearestRank_mono`), so integers are in the order
of the doubles nearest to them (`Binary64.place_mono`). Up to `2 ^ 53` every integer is a double
itself, so that no two of them have the same one (`Binary64.eq_of_place`); beyond that some have.
-/

namespace Rendezvous.Binary64

/-- Nothing is rounded by as much as one. -/
theorem roundHalfEven_bounds (num den : Nat) :
    num / den ≤ roundHalfEven num den ∧ roundHalfEven num den ≤ num / den + 1 := by
  unfold roundHalfEven
  simp only
  split
  · omega
  · split <;> omega

theorem roundHalfEven_mono {a b : Nat} (h : a ≤ b) (den : Nat) :
    roundHalfEven a den ≤ roundHalfEven b den := by
  have hquotient : a / den ≤ b / den := Nat.div_le_div_right h
  have ha := roundHalfEven_bounds a den
  have hb := roundHalfEven_bounds b den
  rcases Nat.lt_or_eq_of_le hquotient with hlt | hsame
  · omega
  · have hrest : a % den ≤ b % den := by
      have hadiv : den * (a / den) + a % den = a := Nat.div_add_mod a den
      have hbdiv : den * (b / den) + b % den = b := Nat.div_add_mod b den
      rw [hsame] at hadiv
      omega
    unfold roundHalfEven at ha hb ⊢
    simp only [hsame] at ha hb ⊢
    generalize b / den = q at *
    by_cases hdown : 2 * (a % den) < den
    · rw [if_pos hdown]
      exact hb.1
    · by_cases hup : den < 2 * (b % den)
      · rw [if_neg (show ¬ 2 * (b % den) < den by omega), if_pos hup]
        exact ha.2
      · -- Both are halfway.
        rw [if_neg hdown, if_neg (by omega), if_neg (by omega), if_neg hup]

theorem roundHalfEven_mul (m : Nat) {den : Nat} (hden : 0 < den) :
    roundHalfEven (m * den) den = m := by
  unfold roundHalfEven
  simp only [Nat.mul_div_cancel m hden, Nat.mul_mod_left]
  rw [if_pos (by omega)]

/-- The exponent of the spacing at which a fraction is rounded. -/
def spacing (num den : Nat) : Nat := Nat.log2 (num / den) - 52

theorem nearestRank_at_spacing (num den : Nat) :
    nearestRank num den = min (spacing num den * binade +
      roundHalfEven num (den * 2 ^ spacing num den)) infinityRank := by
  rw [← Nat.shiftLeft_eq]
  rfl

section Spacing

variable {num den : Nat}

theorem lt_of_spacing (hden : 0 < den) :
    num < 2 * binade * (den * 2 ^ spacing num den) := by
  have hlog : num / den < 2 ^ (53 + spacing num den) := by
    refine Nat.lt_of_lt_of_le Nat.lt_log2_self (Nat.pow_le_pow_right (by decide) ?_)
    unfold spacing
    omega
  have hnum : num < 2 ^ (53 + spacing num den) * den := (Nat.div_lt_iff_lt_mul hden).mp hlog
  calc num < 2 ^ (53 + spacing num den) * den := hnum
    _ = 2 * binade * (den * 2 ^ spacing num den) := by rw [binade_eq]; ring

theorem le_of_spacing (hden : 0 < den) (h : 0 < spacing num den) :
    binade * (den * 2 ^ spacing num den) ≤ num := by
  have hlog : 2 ^ (52 + spacing num den) ≤ num / den := by
    unfold spacing at h ⊢
    have hsum : 52 + (Nat.log2 (num / den) - 52) = Nat.log2 (num / den) := by omega
    rw [hsum]
    refine Nat.log2_self_le fun hzero => ?_
    rw [hzero] at h
    exact absurd h (by decide)
  have hnum : 2 ^ (52 + spacing num den) * den ≤ num := (Nat.le_div_iff_mul_le hden).mp hlog
  calc binade * (den * 2 ^ spacing num den) = 2 ^ (52 + spacing num den) * den := by
        rw [binade_eq]; ring
    _ ≤ num := hnum

end Spacing

theorem spacing_mono {a b : Nat} (h : a ≤ b) (den : Nat) : spacing a den ≤ spacing b den := by
  have hquotient : a / den ≤ b / den := Nat.div_le_div_right h
  have hlog : Nat.log2 (a / den) ≤ Nat.log2 (b / den) := by
    rcases Nat.eq_zero_or_pos (a / den) with hzero | hpos
    · rw [hzero]
      exact Nat.zero_le _
    · rw [Nat.le_log2 (by omega)]
      exact Nat.le_trans (Nat.log2_self_le (by omega)) hquotient
  unfold spacing
  omega

/-- Rounding keeps the order, within a spacing and from one to a wider one. -/
theorem nearestRank_mono {a b den : Nat} (hden : 0 < den) (h : a ≤ b) :
    nearestRank a den ≤ nearestRank b den := by
  rw [nearestRank_at_spacing, nearestRank_at_spacing]
  refine min_le_min_right _ ?_
  have hspacing : spacing a den ≤ spacing b den := spacing_mono h den
  rcases Nat.lt_or_eq_of_le hspacing with hwider | hsame
  · -- The power of two at which the spacing changes lies between them.
    have hpos : 0 < den * 2 ^ spacing a den := Nat.mul_pos hden (Nat.two_pow_pos _)
    have hpos' : 0 < den * 2 ^ spacing b den := Nat.mul_pos hden (Nat.two_pow_pos _)
    have ha : a ≤ 2 * binade * (den * 2 ^ spacing a den) := Nat.le_of_lt (lt_of_spacing hden)
    have hb : binade * (den * 2 ^ spacing b den) ≤ b := le_of_spacing hden (by omega)
    have hbelow := roundHalfEven_mono ha (den * 2 ^ spacing a den)
    have habove := roundHalfEven_mono hb (den * 2 ^ spacing b den)
    rw [roundHalfEven_mul _ hpos] at hbelow
    rw [roundHalfEven_mul _ hpos'] at habove
    have hstep : (spacing a den + 1) * binade ≤ spacing b den * binade :=
      Nat.mul_le_mul_right binade hwider
    rw [Nat.succ_mul] at hstep
    omega
  · rw [hsame]
    exact Nat.add_le_add_left (roundHalfEven_mono h _) _

/-! ## Integers -/

/-- The rank of the double nearest to a whole number. -/
def wholeRank (n : Nat) : Nat := nearestRank (n * unitsPerOne) 1

/-- The signed rank of the double nearest to an integer. -/
def place (i : Int) : Int := if i < 0 then -(wholeRank i.natAbs : Int) else wholeRank i.natAbs

theorem wholeRank_mono {m n : Nat} (h : m ≤ n) : wholeRank m ≤ wholeRank n :=
  nearestRank_mono Nat.one_pos (Nat.mul_le_mul_right unitsPerOne h)

theorem position?_ofInt (i : Int) : (ofInt i).position? = some (place i) := by
  have hrank : min (wholeRank i.natAbs) infinityRank = wholeRank i.natAbs :=
    Nat.min_eq_left (Nat.min_le_right ..)
  unfold ofInt ofRatio ofRank position? place
  simp only [decide_eq_true_eq]
  show some (if i < 0 then -((min (wholeRank i.natAbs) infinityRank : Nat) : Int)
    else (min (wholeRank i.natAbs) infinityRank : Nat)) = _
  rw [hrank]

theorem place_mono {i j : Int} (h : i ≤ j) : place i ≤ place j := by
  unfold place
  by_cases hi : i < 0
  · rw [if_pos hi]
    by_cases hj : j < 0
    · rw [if_pos hj]
      have hle := wholeRank_mono (show j.natAbs ≤ i.natAbs by omega)
      omega
    · rw [if_neg hj]
      omega
  · rw [if_neg hi, if_neg (by omega)]
    have hle := wholeRank_mono (show i.natAbs ≤ j.natAbs by omega)
    omega

theorem unitsPerOne_eq {e : Nat} (h : e = 1074) : unitsPerOne = 2 ^ e := by
  rw [← Nat.one_shiftLeft, h, unitsPerOne]

/-- A whole number up to `2 ^ 53` as a full significand and a power of two. -/
theorem exists_full {n : Nat} (hpos : 0 < n) (h : n ≤ 2 * binade) :
    ∃ s m, s ≤ 1075 ∧ binade ≤ m ∧ m < 2 * binade ∧ n * unitsPerOne = m * 2 ^ s := by
  have hbinade := binade_pos
  rcases Nat.lt_or_eq_of_le h with hlt | rfl
  · have hlow : 2 ^ Nat.log2 n ≤ n := Nat.log2_self_le (by omega)
    have hhigh : n < 2 ^ (Nat.log2 n + 1) := Nat.lt_log2_self
    have hlog : Nat.log2 n ≤ 52 := by
      have hlog' : Nat.log2 n < 53 := by
        rw [Nat.log2_lt (by omega)]
        exact Nat.lt_of_lt_of_eq hlt (by rw [binade_eq, ← Nat.pow_succ'])
      omega
    generalize Nat.log2 n = e at *
    obtain ⟨f, hf⟩ : ∃ f, f + e = 52 := ⟨52 - e, by omega⟩
    refine ⟨1022 + e, n * 2 ^ f, by omega, ?_, ?_, ?_⟩
    · calc binade = 2 ^ e * 2 ^ f := by rw [binade_eq, ← hf, Nat.add_comm, Nat.pow_add]
        _ ≤ n * 2 ^ f := Nat.mul_le_mul_right _ hlow
    · calc n * 2 ^ f < 2 ^ (e + 1) * 2 ^ f := Nat.mul_lt_mul_of_pos_right hhigh (Nat.two_pow_pos f)
        _ = 2 * binade := by rw [binade_eq, ← hf]; ring
    · have hunit : unitsPerOne = 2 ^ (f + (1022 + e)) := unitsPerOne_eq (by omega)
      rw [hunit, Nat.pow_add, Nat.mul_assoc]
  · obtain ⟨e, he⟩ : ∃ e, e = 1074 := ⟨1074, rfl⟩
    refine ⟨e + 1, binade, by omega, Nat.le_refl _, by omega, ?_⟩
    rw [unitsPerOne_eq he, Nat.mul_comm 2, Nat.mul_assoc, ← Nat.pow_succ']

/-- A whole number up to `2 ^ 53` is a double. -/
theorem units_wholeRank {n : Nat} (h : n ≤ 2 * binade) :
    units (wholeRank n) = n * unitsPerOne := by
  rcases Nat.eq_zero_or_pos n with rfl | hpos
  · have hzero : wholeRank 0 = 0 := by
      unfold wholeRank
      rw [Nat.zero_mul]
      rfl
    rw [hzero, Nat.zero_mul]
    rfl
  · obtain ⟨s, m, hs, hfull, hlt, hnum⟩ := exists_full hpos h
    have hpow : 0 < 2 ^ s := Nat.two_pow_pos s
    have hwhole : NearestWhole m (m * 2 ^ s) (1 * 2 ^ s) := by
      unfold NearestWhole
      have hmid : (2 * m + 1) * (1 * 2 ^ s) = 2 * (m * 2 ^ s) + 2 ^ s := by ring
      have hself : 2 * m * (1 * 2 ^ s) = 2 * (m * 2 ^ s) := by ring
      rw [hmid, hself]
      split <;> omega
    have hrank : wholeRank n = s * binade + m := by
      unfold wholeRank
      rw [hnum, nearestRank_of_spacing Nat.one_pos ?_ (.inr ?_) hwhole]
      · refine Nat.min_eq_left ?_
        have hle : s * binade ≤ 1075 * binade := Nat.mul_le_mul_right binade hs
        unfold infinityRank
        omega
      · rw [Nat.mul_one]
        exact Nat.mul_lt_mul_of_pos_right hlt hpow
      · rw [Nat.mul_one]
        exact Nat.mul_le_mul_right _ hfull
    have hsplits : Splits (wholeRank n) s m := ⟨hrank, hlt, .inr hfull⟩
    rw [hsplits.units_eq, hnum]

theorem eq_of_wholeRank {m n : Nat} (hm : m ≤ 2 * binade) (hn : n ≤ 2 * binade)
    (h : wholeRank m = wholeRank n) : m = n := by
  have hunits : m * unitsPerOne = n * unitsPerOne := by
    rw [← units_wholeRank hm, ← units_wholeRank hn, h]
  have hpos : 0 < unitsPerOne := by decide
  exact Nat.eq_of_mul_eq_mul_right hpos hunits

/-- Different integers up to `2 ^ 53` in magnitude have different doubles. -/
theorem eq_of_place {i j : Int} (hi : i.natAbs ≤ 2 * binade) (hj : j.natAbs ≤ 2 * binade)
    (h : place i = place j) : i = j := by
  -- Only zero has the place of zero, so that numbers at one place have one sign.
  have hzero : ∀ n ≤ 2 * binade, wholeRank n = 0 → n = 0 := by
    intro n hn hrank
    refine eq_of_wholeRank hn (Nat.zero_le _) (hrank.trans ?_)
    unfold wholeRank
    rw [Nat.zero_mul]
    rfl
  have hizero := hzero _ hi
  have hjzero := hzero _ hj
  have hsame := eq_of_wholeRank hi hj
  unfold place at h
  split at h
  · split at h <;> omega
  · split at h <;> omega

end Rendezvous.Binary64
