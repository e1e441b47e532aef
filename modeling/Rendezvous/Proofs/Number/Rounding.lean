import Mathlib.Tactic.Ring
import Rendezvous.Number.Binary64
/-!
# Rounding to the nearest double

A fraction that lies between the midpoints from a rank to the two ranks next to it is rounded to
this rank, and so is a midpoint itself if the rank is even (`Binary64.nearestRank_eq`). The spacing
of the doubles changes at the powers of two only, where the lower midpoint is half as far away as
the upper one.
-/

namespace Rendezvous.Binary64

theorem binade_pos : 0 < binade := by decide

theorem binade_eq : binade = 2 ^ 52 := by decide

/-- A rank as a spacing, `2 ^ s` units, and a significand. -/
structure Splits (rank s m : Nat) : Prop where
  rank_eq : rank = s * binade + m
  lt : m < 2 * binade
  /-- The significand is a full one where the spacing is not the least. -/
  full : s = 0 ∨ binade ≤ m

theorem exists_splits (rank : Nat) : ∃ s m, Splits rank s m := by
  by_cases hlow : rank < binade
  · exact ⟨0, rank, by simp, by omega, .inl rfl⟩
  · have hrank : binade * (rank / binade) + rank % binade = rank := Nat.div_add_mod rank binade
    have hmod : rank % binade < binade := Nat.mod_lt _ binade_pos
    have hdiv : 0 < rank / binade := Nat.div_pos (by omega) binade_pos
    obtain ⟨s, hs⟩ : ∃ s, rank / binade = s + 1 := ⟨rank / binade - 1, by omega⟩
    refine ⟨s, binade + rank % binade, ?_, by omega, .inr (by omega)⟩
    rw [hs, Nat.mul_succ, Nat.mul_comm] at hrank
    omega

namespace Splits

variable {rank s m : Nat}

theorem units_eq (h : Splits rank s m) : units rank = m * 2 ^ s := by
  obtain ⟨rfl, hlt, hfull⟩ := h
  unfold units
  split
  · next hlow =>
    have hs : s = 0 := by
      rcases hfull with hs | hm
      · exact hs
      · omega
    subst hs
    simp
  · next hhigh =>
    have hm : binade ≤ m := by
      rcases hfull with rfl | hm
      · omega
      · exact hm
    obtain ⟨t, rfl⟩ : ∃ t, m = binade + t := ⟨m - binade, by omega⟩
    have hrank : s * binade + (binade + t) = t + binade * (s + 1) := by ring
    have hmod : (s * binade + (binade + t)) % binade = t := by
      rw [hrank, Nat.add_mul_mod_self_left, Nat.mod_eq_of_lt (by omega)]
    have hdiv : (s * binade + (binade + t)) / binade = s + 1 := by
      rw [hrank, Nat.add_mul_div_left _ _ binade_pos, Nat.div_eq_of_lt (by omega), Nat.zero_add]
    rw [hmod, hdiv, Nat.add_sub_cancel, Nat.shiftLeft_eq]

/-- The next rank is one spacing away, at the end of a binade too. -/
theorem units_succ (h : Splits rank s m) : units (rank + 1) = (m + 1) * 2 ^ s := by
  by_cases hlast : m + 1 = 2 * binade
  · have hnext : Splits (rank + 1) (s + 1) binade := by
      refine ⟨?_, by have := binade_pos; omega, .inr (Nat.le_refl _)⟩
      rw [h.rank_eq, Nat.succ_mul]
      omega
    rw [hnext.units_eq, hlast]
    ring
  · have hnext : Splits (rank + 1) s (m + 1) := by
      refine ⟨by rw [h.rank_eq]; omega, by have := h.lt; omega, ?_⟩
      rcases h.full with hs | hm
      · exact .inl hs
      · exact .inr (by omega)
    exact hnext.units_eq

/-- The rank before is one spacing away, unless this one is a power of two. -/
theorem units_pred (h : Splits rank s m) (hinside : s = 0 ∨ binade < m) :
    units (rank - 1) = (m - 1) * 2 ^ s := by
  by_cases hm : m = 0
  · have hs : s = 0 := by omega
    have hrank : rank = 0 := by rw [h.rank_eq, hs, hm]; simp
    subst hrank hm
    simp [units, binade]
  · have hprev : Splits (rank - 1) s (m - 1) := by
      refine ⟨by rw [h.rank_eq]; omega, by have := h.lt; omega, ?_⟩
      rcases hinside with hs | hm
      · exact .inl hs
      · exact .inr (by omega)
    exact hprev.units_eq

/-- The rank before a power of two is half a spacing away. -/
theorem units_pred_power (h : Splits rank (s + 1) binade) :
    units (rank - 1) = (2 * binade - 1) * 2 ^ s := by
  have hprev : Splits (rank - 1) s (2 * binade - 1) := by
    have := binade_pos
    refine ⟨?_, by omega, .inr (by omega)⟩
    rw [h.rank_eq, Nat.succ_mul]
    omega
  exact hprev.units_eq

end Splits

theorem units_lt_succ (rank : Nat) : units rank < units (rank + 1) := by
  obtain ⟨s, m, h⟩ := exists_splits rank
  rw [h.units_eq, h.units_succ]
  exact Nat.mul_lt_mul_of_pos_right (Nat.lt_succ_self m) (Nat.two_pow_pos s)

theorem units_le_units {a b : Nat} (h : a ≤ b) : units a ≤ units b := by
  induction h with
  | refl => exact Nat.le_refl _
  | step _ ih => exact Nat.le_trans ih (Nat.le_of_lt (units_lt_succ _))

/-- Whether a whole number is the nearest one to a fraction, of two the even one. -/
def NearestWhole (m num den : Nat) : Prop :=
  if m % 2 = 0 then 2 * m * den ≤ 2 * num + den ∧ 2 * num ≤ (2 * m + 1) * den
  else 2 * m * den < 2 * num + den ∧ 2 * num < (2 * m + 1) * den

theorem NearestWhole.le {m num den : Nat} (h : NearestWhole m num den) :
    2 * m * den ≤ 2 * num + den ∧ 2 * num ≤ (2 * m + 1) * den := by
  unfold NearestWhole at h
  split at h
  · exact h
  · exact ⟨Nat.le_of_lt h.1, Nat.le_of_lt h.2⟩

theorem roundHalfEven_eq {m num den : Nat} (hden : 0 < den) (h : NearestWhole m num den) :
    roundHalfEven num den = m := by
  obtain ⟨w, t, ht, rfl⟩ : ∃ w t, t < den ∧ num = den * w + t :=
    ⟨num / den, num % den, Nat.mod_lt _ hden, (Nat.div_add_mod num den).symm⟩
  have hdiv : (den * w + t) / den = w := by
    rw [Nat.mul_add_div hden, Nat.div_eq_of_lt ht, Nat.add_zero]
  have hmod : (den * w + t) % den = t := by rw [Nat.mul_add_mod, Nat.mod_eq_of_lt ht]
  obtain ⟨hlow, hhigh⟩ := h.le
  have hge : w ≤ m := by
    by_contra hlt
    have hmul : (2 * m + 2) * den ≤ 2 * w * den := Nat.mul_le_mul_right den (by omega)
    have hnum : 2 * w * den = 2 * (den * w) := by ring
    rw [Nat.add_mul] at hmul hhigh
    omega
  have hle : m ≤ w + 1 := by
    by_contra hlt
    have hmul : 2 * (w + 2) * den ≤ 2 * m * den := Nat.mul_le_mul_right den (by omega)
    have hnum : 2 * (w + 2) * den = 2 * (den * w) + 4 * den := by ring
    omega
  -- One of the two whole numbers next to the fraction is left for `m`.
  unfold roundHalfEven
  simp only [hdiv, hmod]
  unfold NearestWhole at h
  rcases Nat.lt_or_ge w m with hup | hdown
  · obtain rfl : m = w + 1 := by omega
    have hm : 2 * (w + 1) * den = 2 * (den * w) + 2 * den := by ring
    rw [hm] at h
    split at h
    · rw [if_neg (by omega)]
      split
      · rfl
      · omega
    · rw [if_neg (by omega), if_pos (by omega)]
  · obtain rfl : m = w := by omega
    have hm : (2 * m + 1) * den = 2 * (den * m) + den := by ring
    rw [hm] at h
    split at h
    · split
      · rfl
      · rw [if_neg (by omega)]
        omega
    · rw [if_pos (by omega)]

/-- Whether a fraction of units lies between the midpoints from a rank to the ranks next to it, on
one of them only if the rank is even. -/
def RoundsTo (rank num den : Nat) : Prop :=
  if rank % 2 = 0 then
    (units (rank - 1) + units rank) * den ≤ 2 * num ∧
      2 * num ≤ (units rank + units (rank + 1)) * den
  else
    (units (rank - 1) + units rank) * den < 2 * num ∧
      2 * num < (units rank + units (rank + 1)) * den

theorem RoundsTo.le {rank num den : Nat} (h : RoundsTo rank num den) :
    (units (rank - 1) + units rank) * den ≤ 2 * num ∧
      2 * num ≤ (units rank + units (rank + 1)) * den := by
  unfold RoundsTo at h
  split at h
  · exact h
  · exact ⟨Nat.le_of_lt h.1, Nat.le_of_lt h.2⟩

theorem RoundsTo.of_lt {rank num den : Nat} (hlow : (units (rank - 1) + units rank) * den < 2 * num)
    (hhigh : 2 * num < (units rank + units (rank + 1)) * den) : RoundsTo rank num den := by
  unfold RoundsTo
  split
  · exact ⟨Nat.le_of_lt hlow, Nat.le_of_lt hhigh⟩
  · exact ⟨hlow, hhigh⟩

/-- Only the value of the fraction counts. -/
theorem RoundsTo.congr {rank num den num' den' : Nat} (hden : 0 < den) (hden' : 0 < den')
    (heq : num * den' = num' * den) (h : RoundsTo rank num den) : RoundsTo rank num' den' := by
  have hright : 2 * num' * den = 2 * num * den' := by rw [Nat.mul_assoc, ← heq, ← Nat.mul_assoc]
  unfold RoundsTo at h ⊢
  generalize units (rank - 1) + units rank = low at h ⊢
  generalize units rank + units (rank + 1) = high at h ⊢
  have hlow : low * den' * den = low * den * den' := Nat.mul_right_comm low den' den
  have hhigh : high * den' * den = high * den * den' := Nat.mul_right_comm high den' den
  split at h
  · next heven =>
    rw [if_pos heven]
    obtain ⟨h1, h2⟩ := h
    constructor
    · refine Nat.le_of_mul_le_mul_right ?_ hden
      rw [hlow, hright]
      exact Nat.mul_le_mul_right den' h1
    · refine Nat.le_of_mul_le_mul_right ?_ hden
      rw [hhigh, hright]
      exact Nat.mul_le_mul_right den' h2
  · next hodd =>
    rw [if_neg hodd]
    obtain ⟨h1, h2⟩ := h
    constructor
    · refine Nat.lt_of_mul_lt_mul_right (a := den) ?_
      rw [hlow, hright]
      exact Nat.mul_lt_mul_of_pos_right h1 hden'
    · refine Nat.lt_of_mul_lt_mul_right (a := den) ?_
      rw [hhigh, hright]
      exact Nat.mul_lt_mul_of_pos_right h2 hden'

/-- The spacing that rounding takes from a fraction. -/
theorem log2_sub_eq {q s : Nat} (hlt : q < 2 * binade * 2 ^ s) (hge : s = 0 ∨ binade * 2 ^ s ≤ q) :
    Nat.log2 q - 52 = s := by
  have hhigh : q < 2 ^ (52 + s + 1) := by
    rw [binade_eq] at hlt
    calc q < 2 * 2 ^ 52 * 2 ^ s := hlt
      _ = 2 ^ (52 + s + 1) := by ring
  rcases Nat.eq_zero_or_pos q with rfl | hq
  · rcases hge with rfl | hge
    · rfl
    · have : 0 < binade * 2 ^ s := Nat.mul_pos binade_pos (Nat.two_pow_pos s)
      omega
  · have hupper : Nat.log2 q < 52 + s + 1 := (Nat.log2_lt (by omega)).mpr hhigh
    rcases hge with rfl | hge
    · omega
    · have hlower : 52 + s ≤ Nat.log2 q := by
        rw [Nat.le_log2 (by omega), Nat.pow_add, ← binade_eq]
        exact hge
      omega

/-- A fraction is rounded at the spacing that its whole part has. -/
theorem nearestRank_of_spacing {num den s m : Nat} (hden : 0 < den)
    (hlt : num < 2 * binade * 2 ^ s * den) (hge : s = 0 ∨ binade * 2 ^ s * den ≤ num)
    (hm : NearestWhole m num (den * 2 ^ s)) :
    nearestRank num den = min (s * binade + m) infinityRank := by
  have hspacing : Nat.log2 (num / den) - 52 = s := by
    refine log2_sub_eq ((Nat.div_lt_iff_lt_mul hden).mpr hlt) ?_
    rcases hge with hs | hge
    · exact .inl hs
    · exact .inr ((Nat.le_div_iff_mul_le hden).mpr hge)
  unfold nearestRank
  simp only [hspacing]
  rw [Nat.shiftLeft_eq, roundHalfEven_eq (Nat.mul_pos hden (Nat.two_pow_pos s)) hm]

theorem Splits.parity {rank s m : Nat} (h : Splits rank s m) : rank % 2 = m % 2 := by
  have hbinade : binade = 2 * 2 ^ 51 := by decide
  have hrank : rank = m + 2 * (s * 2 ^ 51) := by
    rw [h.rank_eq, hbinade]
    ring
  rw [hrank, Nat.add_mul_mod_self_left]

/-- Inside a binade the midpoints are half a spacing away on both sides. -/
theorem RoundsTo.nearestWhole {rank num den s m : Nat} (h : RoundsTo rank num den)
    (hsplits : Splits rank s m) (hinside : s = 0 ∨ binade < m) :
    NearestWhole m num (den * 2 ^ s) := by
  have hup : (units rank + units (rank + 1)) * den = (2 * m + 1) * (den * 2 ^ s) := by
    rw [hsplits.units_eq, hsplits.units_succ]
    ring
  have hdown : 2 * m * (den * 2 ^ s) ≤
      (units (rank - 1) + units rank) * den + den * 2 ^ s := by
    rw [hsplits.units_eq, hsplits.units_pred hinside]
    cases m with
    | zero => simp
    | succ m =>
      have heq : (m * 2 ^ s + (m + 1) * 2 ^ s) * den + den * 2 ^ s =
          2 * (m + 1) * (den * 2 ^ s) := by ring
      rw [Nat.add_sub_cancel, heq]
  unfold RoundsTo at h
  unfold NearestWhole
  rw [hup, hsplits.parity] at h
  split at h
  · next heven =>
    rw [if_pos heven]
    omega
  · next hodd =>
    rw [if_neg hodd]
    omega

theorem RoundsTo.lt_next {rank num den s m : Nat} (h : RoundsTo rank num den)
    (hsplits : Splits rank s m) (hden : 0 < den) : num < 2 * binade * 2 ^ s * den := by
  have hpos : 0 < den * 2 ^ s := Nat.mul_pos hden (Nat.two_pow_pos s)
  have hhigh : 2 * num ≤ (units rank + units (rank + 1)) * den := h.le.2
  rw [hsplits.units_eq, hsplits.units_succ] at hhigh
  have hle : (2 * m + 2) * (den * 2 ^ s) ≤ 4 * binade * (den * 2 ^ s) :=
    Nat.mul_le_mul_right _ (by have := hsplits.lt; omega)
  have hup : (m * 2 ^ s + (m + 1) * 2 ^ s) * den + den * 2 ^ s =
      (2 * m + 2) * (den * 2 ^ s) := by ring
  have hend : 4 * binade * (den * 2 ^ s) = 2 * (2 * binade * 2 ^ s * den) := by ring
  omega

theorem nearestRank_inside {rank num den s m : Nat} (hden : 0 < den)
    (h : RoundsTo rank num den) (hsplits : Splits rank s m) (hinside : s = 0 ∨ binade < m) :
    nearestRank num den = min rank infinityRank := by
  have hwhole : NearestWhole m num (den * 2 ^ s) := h.nearestWhole hsplits hinside
  rw [hsplits.rank_eq]
  refine nearestRank_of_spacing hden (h.lt_next hsplits hden) ?_ hwhole
  rcases hinside with hs | hm
  · exact .inl hs
  · have hle : (2 * binade + 2) * (den * 2 ^ s) ≤ 2 * m * (den * 2 ^ s) :=
      Nat.mul_le_mul_right _ (by omega)
    have hbinade : (2 * binade + 2) * (den * 2 ^ s) =
        2 * (binade * 2 ^ s * den) + 2 * (den * 2 ^ s) := by ring
    have hnear : 2 * m * (den * 2 ^ s) ≤ 2 * num + den * 2 ^ s := hwhole.le.1
    exact .inr (by omega)

theorem nearestRank_above_power {rank num den s : Nat} (hden : 0 < den)
    (h : RoundsTo rank num den) (hsplits : Splits rank s binade)
    (habove : binade * 2 ^ s * den ≤ num) : nearestRank num den = min rank infinityRank := by
  have hhigh : 2 * num ≤ (units rank + units (rank + 1)) * den := h.le.2
  rw [hsplits.units_eq, hsplits.units_succ] at hhigh
  rw [hsplits.rank_eq]
  refine nearestRank_of_spacing hden (h.lt_next hsplits hden) (.inr habove) ?_
  have hpower : 2 * binade * (den * 2 ^ s) = 2 * (binade * 2 ^ s * den) := by ring
  have hmid : (binade * 2 ^ s + (binade + 1) * 2 ^ s) * den =
      (2 * binade + 1) * (den * 2 ^ s) := by ring
  unfold NearestWhole
  rw [if_pos (by decide)]
  omega

/-- Just below a power of two the spacing is half as wide, and the power of two is the end of the
binade there. -/
theorem nearestRank_below_power {rank num den s : Nat} (hden : 0 < den)
    (h : RoundsTo rank num den) (hsplits : Splits rank (s + 1) binade)
    (hbelow : num < binade * 2 ^ (s + 1) * den) : nearestRank num den = min rank infinityRank := by
  have hpos : 0 < den * 2 ^ s := Nat.mul_pos hden (Nat.two_pow_pos s)
  have hlow : (units (rank - 1) + units rank) * den ≤ 2 * num := h.le.1
  rw [hsplits.units_eq, hsplits.units_pred_power] at hlow
  have hpower : binade * 2 ^ (s + 1) * den = 2 * (binade * 2 ^ s * den) := by ring
  have hone : (2 * binade - 1) * 2 ^ s + 2 ^ s = 2 * binade * 2 ^ s := (Nat.succ_mul _ _).symm
  have hmid : ((2 * binade - 1) * 2 ^ s + binade * 2 ^ (s + 1)) * den + den * 2 ^ s =
      4 * (binade * 2 ^ s * den) := by
    calc ((2 * binade - 1) * 2 ^ s + binade * 2 ^ (s + 1)) * den + den * 2 ^ s
        = ((2 * binade - 1) * 2 ^ s + 2 ^ s + binade * 2 ^ (s + 1)) * den := by ring
      _ = (2 * binade * 2 ^ s + binade * 2 ^ (s + 1)) * den := by rw [hone]
      _ = 4 * (binade * 2 ^ s * den) := by ring
  have hstep : den * 2 ^ s ≤ binade * 2 ^ s * den := by
    calc den * 2 ^ s = 1 * (den * 2 ^ s) := (Nat.one_mul _).symm
      _ ≤ binade * (den * 2 ^ s) := Nat.mul_le_mul_right _ binade_pos
      _ = binade * 2 ^ s * den := by ring
  have hrank : rank = s * binade + 2 * binade := by
    rw [hsplits.rank_eq]
    ring
  rw [hrank]
  refine nearestRank_of_spacing hden ?_ (.inr (by omega)) ?_
  · have hend : 2 * binade * 2 ^ s * den = 2 * (binade * 2 ^ s * den) := by ring
    omega
  · have hleft : 2 * (2 * binade) * (den * 2 ^ s) = 4 * (binade * 2 ^ s * den) := by ring
    have hright : (2 * (2 * binade) + 1) * (den * 2 ^ s) =
        4 * (binade * 2 ^ s * den) + den * 2 ^ s := by ring
    unfold NearestWhole
    rw [if_pos (by decide)]
    omega

/-- A fraction between the midpoints next to a rank is rounded to the rank. -/
theorem nearestRank_eq {rank num den : Nat} (hden : 0 < den) (h : RoundsTo rank num den) :
    nearestRank num den = min rank infinityRank := by
  obtain ⟨s, m, hsplits⟩ := exists_splits rank
  by_cases hinside : s = 0 ∨ binade < m
  · exact nearestRank_inside hden h hsplits hinside
  · obtain ⟨t, rfl⟩ : ∃ t, s = t + 1 := ⟨s - 1, by omega⟩
    obtain rfl : m = binade := by
      have hfull := hsplits.full
      omega
    rcases Nat.lt_or_ge num (binade * 2 ^ (t + 1) * den) with hbelow | habove
    · exact nearestRank_below_power hden h hsplits hbelow
    · exact nearestRank_above_power hden h hsplits habove

end Rendezvous.Binary64
