import Rendezvous.Text.Numeral
/-!
# Numerals that are read back

The digits that are written for a number are read as this number, with any number of zeros before
them too (`Text.naturalOfDigits?_zeros`).
-/

namespace Rendezvous.Text

/-- What a digit counts. -/
def digitOf (c : Char) : Nat := c.toNat - '0'.toNat

theorem digitValue?_of_isDigit {c : Char} (h : c.isDigit = true) :
    digitValue? c = some (digitOf c) := by
  have hrange : '0' ≤ c ∧ c ≤ '9' := by simpa [Char.isDigit, Char.le_def] using h
  unfold digitValue?
  rw [if_pos hrange]
  rfl

theorem isDigit_of_digitValue? {c : Char} (h : (digitValue? c).isSome = true) :
    c.isDigit = true := by
  unfold digitValue? at h
  split at h
  · next hrange => simpa [Char.isDigit, Char.le_def] using hrange
  · cases h

theorem isSome_digitValue? (c : Char) : (digitValue? c).isSome = c.isDigit := by
  rw [Bool.eq_iff_iff]
  constructor
  · exact isDigit_of_digitValue?
  · intro h
    rw [digitValue?_of_isDigit h]
    rfl

theorem digitOf_digitChar {n : Nat} (h : n < 10) : digitOf n.digitChar = n :=
  Nat.toNat_digitChar_sub_48_of_lt_ten h

theorem readDigits_eq (acc : Nat) {cs : List Char} (h : ∀ c ∈ cs, c.isDigit = true) :
    readDigits acc cs = some (Nat.ofDigitChars 10 cs acc) := by
  induction cs generalizing acc with
  | nil => rfl
  | cons c cs ih =>
    have hc : c.isDigit = true := h c (List.mem_cons_self ..)
    have hcs : ∀ c ∈ cs, c.isDigit = true := fun c hmem => h c (List.mem_cons_of_mem _ hmem)
    simp only [readDigits, digitValue?_of_isDigit hc]
    rw [ih _ hcs, Nat.ofDigitChars_cons, Nat.mul_comm]
    rfl

theorem naturalOfDigits?_eq {cs : List Char} (hne : cs ≠ []) (h : ∀ c ∈ cs, c.isDigit = true) :
    naturalOfDigits? cs = some (Nat.ofDigitChars 10 cs 0) := by
  cases cs with
  | nil => exact absurd rfl hne
  | cons c cs => exact readDigits_eq 0 h

theorem toList_ofNat (n : Nat) : (ofNat n).toList = Nat.toDigits 10 n := Nat.toList_repr

theorem isDigit_of_mem_ofNat {n : Nat} {c : Char} (h : c ∈ (ofNat n).toList) :
    c.isDigit = true := by
  rw [toList_ofNat] at h
  exact Nat.isDigit_of_mem_toDigits (by decide) (by decide) h

/-- A written number is read as itself, whatever zeros stand before it. -/
theorem naturalOfDigits?_zeros (count n : Nat) :
    naturalOfDigits? (List.replicate count '0' ++ (ofNat n).toList) = some n := by
  have hne : List.replicate count '0' ++ (ofNat n).toList ≠ [] := by
    rw [toList_ofNat]
    simp
  have hdigits : ∀ c ∈ List.replicate count '0' ++ (ofNat n).toList, c.isDigit = true := by
    intro c hc
    rcases List.mem_append.mp hc with hzero | hdigit
    · rw [List.eq_of_mem_replicate hzero]
      rfl
    · exact isDigit_of_mem_ofNat hdigit
  rw [naturalOfDigits?_eq hne hdigits, Nat.ofDigitChars_append, toList_ofNat]
  simp

end Rendezvous.Text
