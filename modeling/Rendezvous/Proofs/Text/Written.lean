import Rendezvous.Proofs.Text.Numeral
/-!
# Written numbers as fields

A field is read without the blanks around it. The numerals that are written for numbers have none,
and the readers of the widths that fields have take each back as the number it was written for.
-/

namespace Rendezvous.Text

/-- Trimming takes nothing off a text that has no blanks. -/
theorem trim_eq_self {s : String} (h : ∀ c ∈ s.toList, isBlank c = false) : trim s = s := by
  have hdrop : ∀ cs : List Char, (∀ c ∈ cs, isBlank c = false) → cs.dropWhile isBlank = cs := by
    intro cs hcs
    cases cs with
    | nil => rfl
    | cons c cs => rw [List.dropWhile_cons_of_neg (by simp [hcs c (List.mem_cons_self ..)])]
  unfold trim trimChars
  rw [hdrop _ h, hdrop _ (fun c hc => h c (List.mem_reverse.mp hc)), List.reverse_reverse,
    String.ofList_toList]

theorem isBlank_of_isDigit {c : Char} (h : c.isDigit = true) : isBlank c = false := by
  simp only [Char.isDigit, Bool.and_eq_true, decide_eq_true_eq, ge_iff_le,
    UInt32.le_iff_toNat_le] at h
  obtain ⟨hlow, hhigh⟩ := h
  have hlow' : 48 ≤ c.toNat := hlow
  have hhigh' : c.toNat ≤ 57 := hhigh
  rw [Bool.eq_false_iff]
  intro hblank
  simp [isBlank, blankRanges] at hblank
  omega

theorem trim_ofNat (n : Nat) : trim (ofNat n) = ofNat n := by
  refine trim_eq_self fun c hc => isBlank_of_isDigit (isDigit_of_mem_ofNat hc)

theorem trim_ofInt (i : Int) : trim (ofInt i) = ofInt i := by
  unfold ofInt
  split
  · refine trim_eq_self fun c hc => ?_
    rw [String.toList_ofList] at hc
    rcases List.mem_cons.mp hc with rfl | hc
    · decide
    · exact isBlank_of_isDigit (isDigit_of_mem_ofNat hc)
  · exact trim_ofNat _

theorem trim_ofBool (b : Bool) : trim (ofBool b) = ofBool b := by
  cases b <;> decide

theorem truth?_isSome {s : String} : (truth? s).isSome = true ↔ s = "true" ∨ s = "false" := by
  unfold truth?
  split
  · next h => simp [h]
  · split
    · next h => simp [h]
    · next hfalse => simp [*]

/-- A written number starts with a digit. -/
theorem exists_cons_ofNat (n : Nat) :
    ∃ c cs, (ofNat n).toList = c :: cs ∧ c ≠ '+' ∧ c ≠ '-' := by
  cases hdigits : (ofNat n).toList with
  | nil =>
    rw [toList_ofNat] at hdigits
    exact absurd hdigits Nat.toDigits_ne_nil
  | cons c cs =>
    have hdigit : c.isDigit = true := by
      refine isDigit_of_mem_ofNat (n := n) ?_
      rw [hdigits]
      exact List.mem_cons_self ..
    refine ⟨c, cs, rfl, ?_, ?_⟩
    · rintro rfl
      exact absurd hdigit (by decide)
    · rintro rfl
      exact absurd hdigit (by decide)

theorem naturalOfDigits?_ofNat (n : Nat) : naturalOfDigits? (ofNat n).toList = some n :=
  naturalOfDigits?_zeros 0 n

theorem natural?_ofNat {bound n : Nat} (h : n < bound) : natural? bound (ofNat n) = some n := by
  obtain ⟨c, cs, hcs, hplus, -⟩ := exists_cons_ofNat n
  have hvalue := naturalOfDigits?_ofNat n
  rw [hcs] at hvalue
  unfold natural?
  simp [hcs, hplus, hvalue, h]

theorem word16?_ofNat (w : UInt16) : word16? (ofNat w.toNat) = some w := by
  unfold word16?
  rw [natural?_ofNat w.toNat_lt]
  simp

theorem word64?_ofNat {n : Nat} (h : n < UInt64.size) : word64? (ofNat n) = some n :=
  natural?_ofNat h

theorem integer?_ofInt (i : Int64) : integer? (ofInt i.toInt) = some i := by
  have hfits : FitsInt64 i.toInt := ⟨i.le_toInt, i.toInt_lt⟩
  by_cases hneg : i.toInt < 0
  · have htext : (ofInt i.toInt).toList = '-' :: (ofNat i.toInt.natAbs).toList := by
      rw [ofInt, if_pos hneg, String.toList_ofList]
    have hvalue : -Int.ofNat i.toInt.natAbs = i.toInt := by
      rw [Int.ofNat_eq_natCast]
      omega
    unfold integer?
    simp only [htext, naturalOfDigits?_ofNat, Option.map_some, hvalue]
    rw [if_pos hfits, Int64.ofInt_toInt]
  · have htext : ofInt i.toInt = ofNat i.toInt.natAbs := if_neg hneg
    have hvalue : ((i.toInt.natAbs : Nat) : Int) = i.toInt := Int.natAbs_of_nonneg (by omega)
    obtain ⟨c, cs, hcs, hplus, hminus⟩ := exists_cons_ofNat i.toInt.natAbs
    have hdigits := naturalOfDigits?_ofNat i.toInt.natAbs
    rw [hcs] at hdigits
    unfold integer?
    simp [htext, hcs, hplus, hminus, hdigits, hvalue, hfits]

end Rendezvous.Text
