import Mathlib.Tactic.NormNum
import Rendezvous.Number.Shortest
import Rendezvous.Proofs.Number.Rounding
/-!
# Shortest decimals round back

Of a finite double other than zero, the decimal that `Binary64.shortest` finds lies between the
midpoints to the two doubles next to it, so that reading it gives the double again
(`Binary64.rankOfDecimal_shortest`). A point of a decimal grid is tested for this before it is
taken; what has to be shown is that a point is found, and the grid of seventeen digits always has
one, as its step is less than the distance of two doubles.
-/

namespace Rendezvous.Binary64

/-- The numerator of a decimal as a fraction of units. -/
def decimalNum (digits : Nat) (k : Int) : Nat := digits * 10 ^ k.toNat * unitsPerOne

/-- The denominator of a decimal as a fraction of units. -/
def decimalDen (k : Int) : Nat := 10 ^ (-k).toNat

theorem unitsPerOne_pos : 0 < unitsPerOne := by
  unfold unitsPerOne
  rw [Nat.one_shiftLeft]
  exact Nat.two_pow_pos 1074

theorem units_pos {rank : Nat} (hrank : rank ≠ 0) : 0 < units rank := by
  have hle := units_le_units (show 1 ≤ rank by omega)
  have hone : units 1 = 1 := by simp [units, binade]
  omega

theorem decimalDen_pos (k : Int) : 0 < decimalDen k := Nat.pow_pos (by decide)

/-- That a decimal lies where it rounds to a rank. -/
def DecimalRounds (rank digits : Nat) (k : Int) : Prop :=
  RoundsTo rank (decimalNum digits k) (decimalDen k)

theorem overGrid_num (halfUnits : Nat) (k : Int) :
    (overGrid halfUnits k).num = halfUnits * decimalDen k := by
  unfold overGrid decimalDen
  split
  · next hk =>
    have hzero : (-k).toNat = 0 := by omega
    simp [hzero]
  · rfl

theorem overGrid_den (halfUnits : Nat) (k : Int) :
    (overGrid halfUnits k).den = 10 ^ k.toNat * (2 * unitsPerOne) := by
  unfold overGrid
  split
  · rfl
  · next hk =>
    have hzero : k.toNat = 0 := by omega
    simp [hzero]

theorem mul_gridDen (digits halfUnits : Nat) (k : Int) :
    digits * (overGrid halfUnits k).den = 2 * decimalNum digits k := by
  rw [overGrid_den, decimalNum]
  ring

/-- Whether a point of a grid is one that rounds to the rank, in the terms of the grid. -/
theorem gridRounds_iff (rank digits : Nat) (k : Int) :
    (if rank % 2 = 0 then
      (overGrid (units (rank - 1) + units rank) k).num ≤
          digits * (overGrid (2 * units rank) k).den ∧
        digits * (overGrid (2 * units rank) k).den ≤
          (overGrid (units rank + units (rank + 1)) k).num
    else
      (overGrid (units (rank - 1) + units rank) k).num <
          digits * (overGrid (2 * units rank) k).den ∧
        digits * (overGrid (2 * units rank) k).den <
          (overGrid (units rank + units (rank + 1)) k).num) ↔ DecimalRounds rank digits k := by
  simp only [overGrid_num, mul_gridDen]
  rfl

instance (rank digits : Nat) (k : Int) : Decidable (DecimalRounds rank digits k) :=
  inferInstanceAs (Decidable (ite _ _ _))

/-- The nearer of the two whole numbers next to a fraction. -/
def nearerWhole (tieUpward : Bool) (value : Fraction) : Nat :=
  let below := value.num / value.den
  let rest := value.num % value.den
  if 2 * rest < value.den then below
  else if value.den < 2 * rest then below + 1
  else if tieUpward then below + 1
  else below + below % 2

/-- The two points of the grid next to the magnitude are tried, the nearer one first. -/
theorem gridPoint?_eq (tieUpward : Bool) (rank : Nat) (k : Int) :
    gridPoint? tieUpward rank k =
      let value := overGrid (2 * units rank) k
      let nearer := nearerWhole tieUpward value
      let farther := 2 * (value.num / value.den) + 1 - nearer
      if DecimalRounds rank nearer k then some nearer
      else if DecimalRounds rank farther k then some farther
      else none :=
  if_congr (gridRounds_iff ..) rfl (if_congr (gridRounds_iff ..) rfl rfl)

/-- A point of a grid that is found rounds to the rank. -/
theorem decimalRounds_of_gridPoint? {tieUpward : Bool} {rank d : Nat} {k : Int}
    (h : gridPoint? tieUpward rank k = some d) : DecimalRounds rank d k := by
  rw [gridPoint?_eq] at h
  simp only at h
  split at h
  · next hnearer =>
    cases h
    exact hnearer
  · split at h
    · next hfarther =>
      cases h
      exact hfarther
    · cases h

theorem nearerWhole_near (tieUpward : Bool) (num : Nat) {den : Nat} (hden : 0 < den) :
    2 * num ≤ (2 * nearerWhole tieUpward ⟨num, den⟩ + 1) * den ∧
      2 * (nearerWhole tieUpward ⟨num, den⟩ * den) ≤ 2 * num + den := by
  have hnum : den * (num / den) + num % den = num := Nat.div_add_mod num den
  have hrest : num % den < den := Nat.mod_lt _ hden
  have hbelow : 2 * (num / den * den) = 2 * (den * (num / den)) := by ring
  have hbelow' : (2 * (num / den) + 1) * den = 2 * (den * (num / den)) + den := by ring
  have habove : 2 * ((num / den + 1) * den) = 2 * (den * (num / den)) + 2 * den := by ring
  have habove' : (2 * (num / den + 1) + 1) * den = 2 * (den * (num / den)) + 3 * den := by ring
  have heither : nearerWhole tieUpward ⟨num, den⟩ = num / den ∧ 2 * (num % den) ≤ den ∨
      nearerWhole tieUpward ⟨num, den⟩ = num / den + 1 ∧ den ≤ 2 * (num % den) := by
    unfold nearerWhole
    simp only
    split
    · exact .inl ⟨rfl, by omega⟩
    · split
      · exact .inr ⟨rfl, by omega⟩
      · split
        · exact .inr ⟨rfl, by omega⟩
        · rcases Nat.mod_two_eq_zero_or_one (num / den) with heven | hodd
          · exact .inl ⟨by omega, by omega⟩
          · exact .inr ⟨by omega, by omega⟩
  rcases heither with ⟨heq, hside⟩ | ⟨heq, hside⟩ <;> rw [heq] <;> omega

/-- The distances from a rank to the ranks next to it are more than the magnitude over `10 ^ 16`. -/
theorem units_lt_gap {rank : Nat} (hrank : rank ≠ 0) :
    units rank < (units rank - units (rank - 1)) * 10 ^ 16 ∧
      units rank < (units (rank + 1) - units rank) * 10 ^ 16 := by
  obtain ⟨s, m, hsplits⟩ := exists_splits rank
  have hbinade : 2 * binade < 10 ^ 16 := by decide
  have hpow : 0 < 2 ^ s := Nat.two_pow_pos s
  have hm : m * 2 ^ s < 2 ^ s * 10 ^ 16 := by
    rw [Nat.mul_comm (2 ^ s)]
    exact Nat.mul_lt_mul_of_pos_right (by have := hsplits.lt; omega) hpow
  have hup : units (rank + 1) - units rank = 2 ^ s := by
    rw [hsplits.units_succ, hsplits.units_eq, ← Nat.sub_mul, Nat.add_sub_cancel_left, Nat.one_mul]
  rw [hup, hsplits.units_eq]
  refine ⟨?_, hm⟩
  by_cases hinside : s = 0 ∨ binade < m
  · have hpos : 0 < m := by
      rcases Nat.eq_zero_or_pos m with rfl | hpos
      · have hs : s = 0 := by omega
        exact absurd (by rw [hsplits.rank_eq, hs]; rfl) hrank
      · exact hpos
    have hdown : m * 2 ^ s - (m - 1) * 2 ^ s = 2 ^ s := by
      rw [← Nat.sub_mul, Nat.sub_sub_self hpos, Nat.one_mul]
    rw [hsplits.units_pred hinside, hdown]
    exact hm
  · obtain ⟨t, rfl⟩ : ∃ t, s = t + 1 := ⟨s - 1, by omega⟩
    obtain rfl : m = binade := by
      have hfull := hsplits.full
      omega
    have hpower : binade * 2 ^ (t + 1) = 2 * binade * 2 ^ t := by ring
    have hdown : binade * 2 ^ (t + 1) - (2 * binade - 1) * 2 ^ t = 2 ^ t := by
      rw [hpower, ← Nat.sub_mul, Nat.sub_sub_self (by decide), Nat.one_mul]
    rw [hsplits.units_pred_power, hdown, hpower, Nat.mul_comm (2 ^ t)]
    exact Nat.mul_lt_mul_of_pos_right hbinade (Nat.two_pow_pos t)

/-- A decimal nearer to the magnitude than half the way to the ranks next to it rounds to the
rank. -/
theorem decimalRounds_of_near {rank d : Nat} {k : Int} {step : Nat}
    (hstep : step = 10 ^ k.toNat * unitsPerOne)
    (hdown : step < (units rank - units (rank - 1)) * decimalDen k)
    (hup : step < (units (rank + 1) - units rank) * decimalDen k)
    (habove : 2 * (units rank * decimalDen k) ≤ 2 * (d * step) + step)
    (hbelow : 2 * (d * step) ≤ 2 * (units rank * decimalDen k) + step) :
    DecimalRounds rank d k := by
  have hprev : units (rank - 1) ≤ units rank := units_le_units (Nat.sub_le ..)
  have hnext : units rank ≤ units (rank + 1) := units_le_units (Nat.le_succ _)
  have hnum : decimalNum d k = d * step := by rw [decimalNum, hstep, Nat.mul_assoc]
  rw [Nat.sub_mul] at hdown hup
  have hprev' := Nat.mul_le_mul_right (decimalDen k) hprev
  have hnext' := Nat.mul_le_mul_right (decimalDen k) hnext
  refine RoundsTo.of_lt ?_ ?_ <;> rw [hnum, Nat.add_mul] <;> omega

/-- On a grid whose step is at most the magnitude over `10 ^ 16` the nearest point rounds to the
rank. -/
theorem isSome_gridPoint? (tieUpward : Bool) {rank : Nat} {k : Int} (hrank : rank ≠ 0)
    (hstep : 10 ^ k.toNat * unitsPerOne * 10 ^ 16 ≤ units rank * decimalDen k) :
    (gridPoint? tieUpward rank k).isSome = true := by
  obtain ⟨hdown, hup⟩ := units_lt_gap hrank
  obtain ⟨step, heq⟩ : ∃ step, step = 10 ^ k.toNat * unitsPerOne := ⟨_, rfl⟩
  rw [← heq] at hstep
  have hcell : ∀ gap, units rank < gap * 10 ^ 16 → step < gap * decimalDen k := by
    intro gap hgap
    refine Nat.lt_of_mul_lt_mul_right (a := 10 ^ 16) ?_
    calc step * 10 ^ 16 ≤ units rank * decimalDen k := hstep
      _ < gap * 10 ^ 16 * decimalDen k := Nat.mul_lt_mul_of_pos_right hgap (decimalDen_pos k)
      _ = gap * decimalDen k * 10 ^ 16 := Nat.mul_right_comm ..
  have hgrid : overGrid (2 * units rank) k = ⟨2 * (units rank * decimalDen k), 2 * step⟩ := by
    have hnum := overGrid_num (2 * units rank) k
    have hden := overGrid_den (2 * units rank) k
    cases hvalue : overGrid (2 * units rank) k with
    | mk num den =>
      rw [hvalue] at hnum hden
      simp only at hnum hden
      rw [hnum, hden, heq, Nat.mul_assoc, Nat.mul_left_comm _ 2 unitsPerOne]
  have hpos : 0 < step := by
    rw [heq]
    exact Nat.mul_pos (Nat.pow_pos (by decide)) unitsPerOne_pos
  have hrounds : DecimalRounds rank (nearerWhole tieUpward (overGrid (2 * units rank) k)) k := by
    have hnear := nearerWhole_near tieUpward (2 * (units rank * decimalDen k))
      (show 0 < 2 * step by omega)
    rw [hgrid]
    generalize nearerWhole tieUpward _ = d at hnear ⊢
    obtain ⟨habove, hbelow⟩ := hnear
    have hd : (2 * d + 1) * (2 * step) = 2 * (2 * (d * step) + step) := by ring
    have hd' : 2 * (d * (2 * step)) = 2 * (2 * (d * step)) := by ring
    exact decimalRounds_of_near heq (hcell _ hdown) (hcell _ hup) (by omega) (by omega)
  rw [gridPoint?_eq]
  simp only
  rw [if_pos hrounds]
  rfl

/-- The digits of a positive number are as many as powers of ten are needed to pass it. -/
theorem decimalLength_bounds {n : Nat} (hn : 0 < n) :
    0 < decimalLength n ∧ 10 ^ (decimalLength n - 1) ≤ n ∧ n < 10 ^ decimalLength n := by
  have hlength : decimalLength n = (Nat.toDigits 10 n).length := if_neg (by omega)
  rw [hlength]
  clear hlength
  induction n using Nat.base_induction 10 (by decide) with
  | single m hm =>
    rw [Nat.toDigits_of_lt_base hm]
    simp only [List.length_singleton]
    omega
  | digit m k hk hm ih =>
    obtain ⟨hpos, hlow, hhigh⟩ := ih hm
    rw [← Nat.toDigits_append_toDigits (by decide) hm hk, Nat.toDigits_of_lt_base hk,
      List.length_append, List.length_singleton]
    generalize (Nat.toDigits 10 m).length = length at *
    obtain ⟨l, rfl⟩ : ∃ l, length = l + 1 := ⟨length - 1, by omega⟩
    simp only [Nat.add_sub_cancel, Nat.pow_succ] at *
    omega

theorem toNat_add_places {length : Nat} {k : Int} (hpos : 0 < length)
    (hk : k = (length : Int) - 331 + 1 - 17) :
    k.toNat + (16 + 330) = length - 1 + (-k).toNat := by
  omega

/-- With seventeen digits the grid is fine enough. -/
theorem seventeenth_step {rank : Nat} (hrank : rank ≠ 0) :
    10 ^ (leadingPower rank + 1 - 17).toNat * unitsPerOne * 10 ^ 16 ≤
      units rank * decimalDen (leadingPower rank + 1 - 17) := by
  have hunits : 0 < units rank := units_pos hrank
  obtain ⟨places, hplaces⟩ : ∃ places, places = 330 := ⟨_, rfl⟩
  have hone : unitsPerOne ≤ 10 ^ places := by
    rw [hplaces, unitsPerOne, Nat.one_shiftLeft]
    decide +kernel
  obtain ⟨n, hn⟩ : ∃ n, n = units rank * 10 ^ places / unitsPerOne := ⟨_, rfl⟩
  have hn1 : 0 < n := by
    rw [hn]
    exact Nat.div_pos (Nat.le_trans hone (Nat.le_mul_of_pos_left _ hunits)) unitsPerOne_pos
  obtain ⟨hpos, hlow, -⟩ := decimalLength_bounds hn1
  have hle : n * unitsPerOne ≤ units rank * 10 ^ places := by
    rw [hn]
    exact Nat.div_mul_le_self ..
  have hpower : leadingPower rank = (decimalLength n : Int) - 331 := by
    rw [leadingPower, ← hplaces, Nat.pow_eq, ← hn]
  rw [hpower]
  obtain ⟨k, hk⟩ : ∃ k, k = (decimalLength n : Int) - 331 + 1 - 17 := ⟨_, rfl⟩
  rw [← hk]
  have hexp : k.toNat + (16 + places) = (decimalLength n - 1) + (-k).toNat := by
    rw [hplaces]
    exact toNat_add_places hpos hk
  have hleft : 10 ^ k.toNat * 10 ^ 16 * 10 ^ places =
      10 ^ (decimalLength n - 1) * decimalDen k := by
    rw [decimalDen, Nat.mul_assoc, ← Nat.pow_add, ← Nat.pow_add, ← Nat.pow_add, hexp]
  refine Nat.le_of_mul_le_mul_right (c := 10 ^ places) ?_ (Nat.pow_pos (by decide))
  calc 10 ^ k.toNat * unitsPerOne * 10 ^ 16 * 10 ^ places
      = 10 ^ k.toNat * 10 ^ 16 * 10 ^ places * unitsPerOne := by ring
    _ = 10 ^ (decimalLength n - 1) * unitsPerOne * decimalDen k := by
      rw [hleft, Nat.mul_right_comm]
    _ ≤ n * unitsPerOne * decimalDen k :=
      Nat.mul_le_mul_right _ (Nat.mul_le_mul_right _ hlow)
    _ ≤ units rank * 10 ^ places * decimalDen k := Nat.mul_le_mul_right _ hle
    _ = units rank * decimalDen k * 10 ^ places := Nat.mul_right_comm ..

/-- The first grid with a point has one that rounds to the rank. -/
theorem decimalRounds_firstGrid (tieUpward : Bool) {rank : Nat} (hrank : rank ≠ 0)
    {digits fuel : Nat} (hfuel : digits + fuel = 18) (hdigits : digits ≤ 17) :
    DecimalRounds rank (firstGrid tieUpward rank digits fuel).1
      (firstGrid tieUpward rank digits fuel).2 := by
  induction fuel generalizing digits with
  | zero => omega
  | succ fuel ih =>
    unfold firstGrid
    simp only
    cases hpoint : gridPoint? tieUpward rank (leadingPower rank + 1 - (digits : Int)) with
    | some d => exact decimalRounds_of_gridPoint? hpoint
    | none =>
      by_cases hlast : digits = 17
      · have hsome := isSome_gridPoint? tieUpward hrank (seventeenth_step hrank)
        subst hlast
        rw [show ((17 : Nat) : Int) = 17 from rfl] at hpoint
        rw [hpoint] at hsome
        cases hsome
      · exact ih (by omega) (by omega)

theorem decimalRounds_tenth {rank d : Nat} {k : Int} (h : DecimalRounds rank (10 * d) k) :
    DecimalRounds rank d (k + 1) := by
  refine RoundsTo.congr (decimalDen_pos k) (decimalDen_pos (k + 1)) ?_ h
  have hexp : k.toNat + (-(k + 1)).toNat + 1 = (k + 1).toNat + (-k).toNat := by omega
  have hpow : 10 ^ k.toNat * 10 ^ (-(k + 1)).toNat * 10 = 10 ^ (k + 1).toNat * 10 ^ (-k).toNat := by
    rw [← Nat.pow_add, ← Nat.pow_succ, Nat.succ_eq_add_one, hexp, Nat.pow_add]
  unfold decimalNum decimalDen
  calc 10 * d * 10 ^ k.toNat * unitsPerOne * 10 ^ (-(k + 1)).toNat
      = d * unitsPerOne * (10 ^ k.toNat * 10 ^ (-(k + 1)).toNat * 10) := by ring
    _ = d * 10 ^ (k + 1).toNat * unitsPerOne * 10 ^ (-k).toNat := by
      rw [hpow]
      ring

theorem decimalRounds_dropZeros {rank d : Nat} {k : Int} (fuel : Nat) (h : DecimalRounds rank d k) :
    DecimalRounds rank (dropZeros d k fuel).1 (dropZeros d k fuel).2 := by
  induction fuel generalizing d k with
  | zero => exact h
  | succ fuel ih =>
    unfold dropZeros
    split
    · next hzero =>
      refine ih (decimalRounds_tenth ?_)
      rw [Nat.mul_div_cancel' (Nat.dvd_of_mod_eq_zero hzero.1)]
      exact h
    · exact h

theorem decimalRounds_shortest (tieUpward : Bool) {rank : Nat} (hrank : rank ≠ 0) :
    DecimalRounds rank (shortest tieUpward rank).1 (shortest tieUpward rank).2 := by
  unfold shortest
  rw [if_neg hrank]
  exact decimalRounds_dropZeros 17 (decimalRounds_firstGrid tieUpward hrank rfl (by decide))

/-- A decimal that rounds to a positive rank is not too small to be looked at. -/
theorem le_top_of_rounds {rank d : Nat} {k : Int} (hrank : rank ≠ 0)
    (h : DecimalRounds rank d k) : d ≠ 0 ∧ -330 ≤ (decimalLength d : Int) + k := by
  have hden : decimalDen k ≤ 2 * decimalNum d k := by
    refine Nat.le_trans (Nat.le_mul_of_pos_left _ ?_) h.le.1
    have := units_pos hrank
    omega
  have hpos := decimalDen_pos k
  have hd : d ≠ 0 := by
    rintro rfl
    simp only [decimalNum, Nat.zero_mul] at hden
    omega
  refine ⟨hd, ?_⟩
  by_contra hsmall
  obtain ⟨-, -, hlt⟩ := decimalLength_bounds (Nat.pos_of_ne_zero hd)
  generalize decimalLength d = length at hlt hsmall
  have hk : k.toNat = 0 := by omega
  obtain ⟨rest, hrest⟩ : ∃ rest, (-k).toNat = length + 330 + rest :=
    ⟨(-k).toNat - (length + 330), by omega⟩
  obtain ⟨places, hplaces⟩ : ∃ places, places = 330 := ⟨_, rfl⟩
  rw [← hplaces] at hrest
  have hscale : 2 * unitsPerOne ≤ 10 ^ places := by
    rw [hplaces, unitsPerOne, Nat.one_shiftLeft]
    decide +kernel
  have hnum : 2 * decimalNum d k < 10 ^ length * 10 ^ places := by
    calc 2 * decimalNum d k = d * (2 * unitsPerOne) := by
          rw [decimalNum, hk]
          ring
      _ < 10 ^ length * (2 * unitsPerOne) :=
        Nat.mul_lt_mul_of_pos_right hlt (Nat.mul_pos (by decide) unitsPerOne_pos)
      _ ≤ 10 ^ length * 10 ^ places := Nat.mul_le_mul_left _ hscale
  have hgrid : 10 ^ length * 10 ^ places ≤ decimalDen k := by
    rw [decimalDen, hrest, Nat.pow_add, Nat.pow_add]
    exact Nat.le_mul_of_pos_right _ (Nat.pow_pos (by decide))
  exact absurd (Nat.lt_of_le_of_lt hden hnum) (Nat.not_lt.mpr hgrid)

theorem units_infinityRank : units infinityRank = binade * 2 ^ 2046 := by
  have hsplits : Splits infinityRank 2046 binade :=
    ⟨by decide, by decide, .inr (Nat.le_refl _)⟩
  exact hsplits.units_eq

/-- A decimal that rounds to a finite rank is not too great to be looked at. -/
theorem top_le_of_rounds {rank d : Nat} {k : Int} (hd : d ≠ 0) (hfinite : rank < infinityRank)
    (h : DecimalRounds rank d k) : (decimalLength d : Int) + k ≤ 310 := by
  by_contra hlarge
  obtain ⟨hpos, hle, -⟩ := decimalLength_bounds (Nat.pos_of_ne_zero hd)
  generalize decimalLength d = length at hle hpos hlarge
  obtain ⟨places, hplaces⟩ : ∃ places, places = 310 := ⟨_, rfl⟩
  have hscale : units infinityRank < 10 ^ places * unitsPerOne := by
    rw [units_infinityRank, hplaces, unitsPerOne, Nat.one_shiftLeft]
    decide +kernel
  obtain ⟨rest, hrest⟩ : ∃ rest, length - 1 + k.toNat = places + (-k).toNat + rest :=
    ⟨length - 1 + k.toNat - (places + (-k).toNat), by omega⟩
  have hhigh : 2 * decimalNum d k ≤ 2 * (units infinityRank * decimalDen k) := by
    refine Nat.le_trans h.le.2 ?_
    rw [← Nat.mul_assoc]
    refine Nat.mul_le_mul_right _ ?_
    have hrank : units rank ≤ units infinityRank := units_le_units (by omega)
    have hnext : units (rank + 1) ≤ units infinityRank := units_le_units (by omega)
    omega
  have hnum : 10 ^ places * unitsPerOne * decimalDen k ≤ decimalNum d k := by
    calc 10 ^ places * unitsPerOne * decimalDen k
        = 10 ^ (places + (-k).toNat) * unitsPerOne := by
          rw [decimalDen, Nat.pow_add, Nat.mul_right_comm]
      _ ≤ 10 ^ (places + (-k).toNat + rest) * unitsPerOne :=
        Nat.mul_le_mul_right _ (Nat.pow_le_pow_right (by decide) (Nat.le_add_right ..))
      _ = 10 ^ (length - 1) * 10 ^ k.toNat * unitsPerOne := by rw [← hrest, Nat.pow_add]
      _ ≤ decimalNum d k := Nat.mul_le_mul_right _ (Nat.mul_le_mul_right _ hle)
  have hlt : units infinityRank * decimalDen k < 10 ^ places * unitsPerOne * decimalDen k :=
    Nat.mul_lt_mul_of_pos_right hscale (decimalDen_pos k)
  omega

/-- A decimal is read as the rank that it rounds to. -/
theorem rankOfDecimal_eq {rank d : Nat} {k : Int} (hrank : rank ≠ 0)
    (hfinite : rank < infinityRank) (h : DecimalRounds rank d k) : rankOfDecimal d k = rank := by
  obtain ⟨hd, hbottom⟩ := le_top_of_rounds hrank h
  have htop := top_le_of_rounds hd hfinite h
  have hnearest : nearestRank (decimalNum d k) (decimalDen k) = rank := by
    rw [nearestRank_eq (decimalDen_pos k) h]
    omega
  unfold rankOfDecimal
  simp only
  rw [if_neg (by omega), if_neg (by omega), ← hnearest]
  split
  · next hk =>
    have hzero : (-k).toNat = 0 := by omega
    rw [decimalDen, hzero]
    rfl
  · next hk =>
    have hzero : k.toNat = 0 := by omega
    rw [decimalNum, hzero, Nat.pow_zero, Nat.mul_one]
    rfl

end Rendezvous.Binary64
