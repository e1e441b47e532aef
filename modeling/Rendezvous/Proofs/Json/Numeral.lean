import Rendezvous.Json.Numeral
import Rendezvous.Proofs.Text.Numeral
/-!
# Integers in JSON text

The digits of an integer that fits are read as the integer (`Json.Numeral.scan_ofInt`). A number
that is being read is a fold over its characters (`Json.Numeral.scan`), apart from the reader.
-/

namespace Rendezvous.Json

/-- Whether an integer is kept as one when it is read: it fits a word of 64 bits, signed or not. -/
def FitsWord (i : Int) : Prop := -0x8000_0000_0000_0000 ≤ i ∧ i < 0x1_0000_0000_0000_0000

namespace Numeral

/-- Reads characters as long as they belong to the number. -/
def scan (r : Numeral × Phase) (cs : List Char) : Option (Numeral × Phase) :=
  cs.foldlM (fun r c => r.1.extend r.2 c) r

theorem scan_cons (r : Numeral × Phase) (c : Char) (cs : List Char) :
    scan r (c :: cs) = (r.1.extend r.2 c).bind fun r => scan r cs :=
  List.foldlM_cons

theorem scan_append (r : Numeral × Phase) (cs ds : List Char) :
    scan r (cs ++ ds) = (scan r cs).bind fun r => scan r ds :=
  List.foldlM_append

theorem scan_singleton (r : Numeral × Phase) (c : Char) : scan r [c] = r.1.extend r.2 c := by
  rw [scan_cons]
  cases r.1.extend r.2 c <;> rfl

/-- The phase after the digits of a number. -/
def phaseOf (n : Nat) : Phase := if n = 0 then .zero else .whole

/-- The digits of a number, the last one first. -/
def digitsOf (n : Nat) : List Nat := ((Nat.toDigits 10 n).map Text.digitOf).reverse

theorem digitsOf_of_lt {n : Nat} (h : n < 10) : digitsOf n = [n] := by
  unfold digitsOf
  rw [Nat.toDigits_of_lt_base h]
  simp [Text.digitOf_digitChar h]

theorem digitsOf_append {m k : Nat} (hm : 0 < m) (hk : k < 10) :
    digitsOf (10 * m + k) = k :: digitsOf m := by
  unfold digitsOf
  rw [← Nat.toDigits_append_toDigits (by decide) hm hk, Nat.toDigits_of_lt_base hk]
  simp [Text.digitOf_digitChar hk]

/-- After a sign or at its start a number takes the digits of a natural number. -/
theorem scan_toDigits (negative : Bool) (n : Nat) :
    scan (start negative, .sign) (Nat.toDigits 10 n) =
      some ({ start negative with whole := digitsOf n }, phaseOf n) := by
  induction n using Nat.base_induction 10 (by decide) with
  | single m hm =>
    have hdigit : m.digitChar.isDigit = true := by simp [hm]
    rw [Nat.toDigits_of_lt_base hm, scan_singleton, digitsOf_of_lt hm]
    simp only [extend, Text.digitValue?_of_isDigit hdigit, Text.digitOf_digitChar hm]
    rfl
  | digit m k hk hm ih =>
    have hdigit : k.digitChar.isDigit = true := by simp [hk]
    have hphase : phaseOf m = .whole := if_neg (by omega)
    have hphase' : phaseOf (10 * m + k) = .whole := if_neg (by omega)
    rw [← Nat.toDigits_append_toDigits (by decide) hm hk, scan_append, ih, hphase, hphase',
      digitsOf_append hm hk, Nat.toDigits_of_lt_base hk]
    simp only [Option.bind_some, scan_singleton, extend, Text.digitValue?_of_isDigit hdigit,
      Text.digitOf_digitChar hk]

/-- What digits are worth after others that are worth `acc`. -/
def worth (acc : Nat) (ds : List Nat) : Nat := ds.foldl (fun acc d => acc * 10 + d) acc

theorem le_worth (acc : Nat) (ds : List Nat) : acc ≤ worth acc ds := by
  induction ds generalizing acc with
  | nil => exact Nat.le_refl _
  | cons d ds ih =>
    have hnext : acc * 10 + d ≤ worth (acc * 10 + d) ds := ih (acc * 10 + d)
    show acc ≤ worth (acc * 10 + d) ds
    omega

/-- Digits of a number of 64 bits all count. -/
theorem appendDigits_eq {acc : Nat} {ds : List Nat} (h : worth acc ds < 0x1_0000_0000_0000_0000) :
    appendDigits acc ds = (worth acc ds, 0) := by
  induction ds generalizing acc with
  | nil => rfl
  | cons d ds ih =>
    have hnext : acc * 10 + d ≤ worth (acc * 10 + d) ds := le_worth _ _
    have hlt : worth (acc * 10 + d) ds < 0x1_0000_0000_0000_0000 := h
    unfold appendDigits
    rw [if_pos (by omega), ih hlt]
    rfl

theorem worth_digitsOf (n : Nat) : worth 0 (digitsOf n).reverse = n := by
  unfold worth digitsOf
  rw [List.reverse_reverse, List.foldl_map]
  have hworth := Nat.ofDigitChars_ten_toDigits (n := n)
  rw [Nat.ofDigitChars_eq_foldl] at hworth
  simpa only [Nat.mul_comm, Text.digitOf] using hworth

/-- A number without a fraction and an exponent is the integer that it writes. -/
theorem value_digits {negative : Bool} {n : Nat} (hfits : n < 0x1_0000_0000_0000_0000)
    (hsign : negative = false ∨ (n ≠ 0 ∧ n ≤ 0x8000_0000_0000_0000)) :
    value { start negative with whole := digitsOf n } =
      .integer (if negative then -(n : Int) else n) := by
  have hdigits : appendDigits 0 (digitsOf n).reverse = (n, 0) := by
    have hworth : worth 0 (digitsOf n).reverse = n := worth_digitsOf n
    rw [appendDigits_eq (by omega), hworth]
  unfold value start
  simp only [hdigits]
  rw [if_pos ⟨trivial, trivial, trivial, hsign⟩]

/-- A minus sign before the first character of a number, or that character. -/
def begin? (c : Char) : Option (Numeral × Phase) :=
  if c = '-' then some (start true, .sign) else (start false).extend .sign c

/-- Reads a whole number from its first character on. -/
def scanAll : List Char → Option (Numeral × Phase)
  | [] => none
  | c :: cs => (begin? c).bind fun r => scan r cs

/-- An integer that fits is read as what it is. -/
theorem scan_ofInt {i : Int} (h : FitsWord i) :
    ∃ n phase, scanAll (Text.ofInt i).toList = some (n, phase) ∧ phase.isEnd = true ∧
      n.value = .integer i := by
  obtain ⟨hlow, hhigh⟩ := h
  have hend : ∀ m, (phaseOf m).isEnd = true := by
    intro m
    unfold phaseOf
    split <;> rfl
  unfold Text.ofInt
  split
  · next hneg =>
    refine ⟨{ start true with whole := digitsOf i.natAbs }, phaseOf i.natAbs, ?_, hend _, ?_⟩
    · rw [String.toList_ofList]
      show scan (start true, .sign) (Text.ofNat i.natAbs).toList = _
      rw [Text.toList_ofNat, scan_toDigits]
    · rw [value_digits (by omega) (.inr (by omega))]
      simp only [↓reduceIte]
      congr 1
      omega
  · next hneg =>
    refine ⟨{ start false with whole := digitsOf i.natAbs }, phaseOf i.natAbs, ?_, hend _, ?_⟩
    · have hscan := scan_toDigits false i.natAbs
      rw [Text.toList_ofNat]
      cases hdigits : Nat.toDigits 10 i.natAbs with
      | nil => exact absurd hdigits Nat.toDigits_ne_nil
      | cons c cs =>
        have hmem : c ∈ Nat.toDigits 10 i.natAbs := by simp [hdigits]
        have hdigit : c.isDigit = true := Nat.isDigit_of_mem_toDigits (by decide) (by decide) hmem
        have hminus : c ≠ '-' := by
          rintro rfl
          exact absurd hdigit (by decide)
        rw [hdigits] at hscan
        show (begin? c).bind (fun r => scan r cs) = _
        unfold begin?
        rw [if_neg hminus]
        exact hscan
    · rw [value_digits (by omega) (.inl rfl)]
      simp only [Bool.false_eq_true, ↓reduceIte]
      congr 1
      omega

end Numeral

end Rendezvous.Json
