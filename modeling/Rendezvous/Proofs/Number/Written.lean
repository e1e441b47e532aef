import Mathlib.Data.List.TakeWhile
import Rendezvous.Proofs.Number.Shortest
import Rendezvous.Proofs.Text.Written
/-!
# Doubles that are read back

The text that messages carry for a double is read as this double (`Binary64.ofText?_plainText`),
the two zeros and the infinities among them; what is no number is not compared with anything and is
left out. The digits of the text are those of the shortest decimal; where the point stands and what
zeros fill the places only says again what its exponent is.
-/

namespace Rendezvous.Binary64

/-- What decimals are made of. -/
def isDecimalDigit (c : Char) : Bool := (Text.digitValue? c).isSome

theorem isDecimalDigit_eq (c : Char) : isDecimalDigit c = c.isDigit := Text.isSome_digitValue? c

theorem takeWhile_digits {ds : List Char} (rest : List Char)
    (hds : ∀ c ∈ ds, isDecimalDigit c = true) (hrest : ∀ c ∈ rest.head?, isDecimalDigit c = false) :
    (ds ++ rest).takeWhile isDecimalDigit = ds ∧ (ds ++ rest).dropWhile isDecimalDigit = rest := by
  rw [List.takeWhile_append_of_pos hds, List.dropWhile_append_of_pos hds]
  cases rest with
  | nil => simp
  | cons c cs =>
    have hc : isDecimalDigit c = false := hrest c rfl
    simp [hc]

/-- Digits without a point are a whole number. -/
theorem decimal?_whole {ds : List Char} {n : Nat} (hds : ∀ c ∈ ds, isDecimalDigit c = true)
    (hn : Text.naturalOfDigits? ds = some n) : decimal? ds = some (n, 0) := by
  obtain ⟨htake, hdrop⟩ := takeWhile_digits [] hds (by simp)
  rw [List.append_nil] at htake hdrop
  unfold isDecimalDigit at htake hdrop
  unfold decimal?
  simp only [htake, hdrop, List.append_nil, hn]
  rfl

/-- Digits after a point count as places. -/
theorem decimal?_point {ws fs : List Char} {n : Nat} (hws : ∀ c ∈ ws, isDecimalDigit c = true)
    (hfs : ∀ c ∈ fs, isDecimalDigit c = true)
    (hn : Text.naturalOfDigits? (ws ++ fs) = some n) :
    decimal? (ws ++ '.' :: fs) = some (n, -(fs.length : Int)) := by
  obtain ⟨htake, hdrop⟩ := takeWhile_digits ('.' :: fs) hws (by simp; decide)
  obtain ⟨htake', hdrop'⟩ := takeWhile_digits [] hfs (by simp)
  rw [List.append_nil] at htake' hdrop'
  unfold isDecimalDigit at htake hdrop htake' hdrop'
  unfold decimal?
  simp only [htake, hdrop, htake', hdrop', hn]

theorem digits_of_digit {n : Nat} {ds : List Char} (h : ds = (Text.ofNat n).toList) :
    ∀ c ∈ ds, isDecimalDigit c = true := by
  intro c hc
  rw [isDecimalDigit_eq]
  subst h
  exact Text.isDigit_of_mem_ofNat hc

/-- Written without an exponent a decimal is read as one of the same value. -/
theorem decimal?_positionalText (d : Nat) (k : Int) :
    decimal? (positionalText plainLayout (Text.ofNat d).toList k) =
      some (if 0 ≤ k then (d * 10 ^ k.toNat, 0) else (d, k)) := by
  have hdigits : ∀ c ∈ (Text.ofNat d).toList, isDecimalDigit c = true := digits_of_digit rfl
  have hzeros : ∀ count, ∀ c ∈ List.replicate count '0', isDecimalDigit c = true := by
    intro count c hc
    rw [List.eq_of_mem_replicate hc]
    decide
  have hvalue : Text.naturalOfDigits? (Text.ofNat d).toList = some d :=
    Text.naturalOfDigits?_zeros 0 d
  unfold positionalText
  split
  · next hk =>
    have hall : ∀ c ∈ (Text.ofNat d).toList ++ List.replicate k.toNat '0',
        isDecimalDigit c = true := by
      intro c hc
      rcases List.mem_append.mp hc with hc | hc
      · exact hdigits c hc
      · exact hzeros _ c hc
    have hne : (Text.ofNat d).toList ++ List.replicate k.toNat '0' ≠ [] := by
      rw [Text.toList_ofNat]
      simp
    have hsuffix : plainLayout.wholeSuffix.toList = [] := rfl
    rw [hsuffix, List.append_nil]
    refine decimal?_whole hall ?_
    rw [Text.naturalOfDigits?_eq hne (by simpa only [isDecimalDigit_eq] using hall),
      Nat.ofDigitChars_append, Text.toList_ofNat, Nat.ofDigitChars_ten_toDigits,
      Nat.ofDigitChars_replicate_zero, Nat.mul_comm]
  · next hk =>
    have hplaces : -(((-k).toNat : Nat) : Int) = k := by omega
    simp only
    split
    · next hfew =>
      have hlength :
          ((Text.ofNat d).toList.drop ((Text.ofNat d).toList.length - (-k).toNat)).length =
            (-k).toNat := by
        rw [List.length_drop]
        omega
      rw [decimal?_point (n := d) (fun c hc => hdigits c (List.mem_of_mem_take hc))
        (fun c hc => hdigits c (List.mem_of_mem_drop hc)) (by rw [List.take_append_drop, hvalue]),
        hlength, hplaces]
    · next hmany =>
      have hlength : (List.replicate ((-k).toNat - (Text.ofNat d).toList.length) '0' ++
          (Text.ofNat d).toList).length = (-k).toNat := by
        rw [List.length_append, List.length_replicate]
        omega
      have hfraction : ∀ c ∈ List.replicate ((-k).toNat - (Text.ofNat d).toList.length) '0' ++
          (Text.ofNat d).toList, isDecimalDigit c = true := by
        intro c hc
        rcases List.mem_append.mp hc with hc | hc
        · exact hzeros _ c hc
        · exact hdigits c hc
      have hzero : ∀ c ∈ ['0'], isDecimalDigit c = true := by simp; decide
      have hpoint := decimal?_point (n := d) hzero hfraction
        (Text.naturalOfDigits?_zeros ((-k).toNat - (Text.ofNat d).toList.length + 1) d)
      rw [hlength, hplaces] at hpoint
      exact hpoint

/-- What stands in a number written without an exponent. -/
def IsPlain (c : Char) : Prop := isDecimalDigit c = true ∨ c = '.'

theorem isPlain_of_mem_positionalText {d : Nat} {k : Int} {c : Char}
    (h : c ∈ positionalText plainLayout (Text.ofNat d).toList k) : IsPlain c := by
  have hdigit : ∀ c ∈ (Text.ofNat d).toList, IsPlain c :=
    fun c hc => .inl (digits_of_digit rfl c hc)
  have hzero : IsPlain '0' := .inl (by decide)
  unfold positionalText at h
  split at h
  · rcases List.mem_append.mp h with h | h
    · rcases List.mem_append.mp h with h | h
      · exact hdigit c h
      · rw [List.eq_of_mem_replicate h]
        exact hzero
    · cases h
  · simp only at h
    split at h
    · rcases List.mem_append.mp h with h | h
      · exact hdigit c (List.mem_of_mem_take h)
      · rcases List.mem_cons.mp h with rfl | h
        · exact .inr rfl
        · exact hdigit c (List.mem_of_mem_drop h)
    · rcases List.mem_cons.mp h with rfl | h
      · exact hzero
      · rcases List.mem_cons.mp h with rfl | h
        · exact .inr rfl
        · rcases List.mem_append.mp h with h | h
          · rw [List.eq_of_mem_replicate h]
            exact hzero
          · exact hdigit c h

theorem magnitudeText_plainLayout (rank : Nat) :
    magnitudeText plainLayout rank =
      positionalText plainLayout (Text.ofNat (shortest true rank).1).toList
        (shortest true rank).2 :=
  rfl

/-- The text of a magnitude is read as a decimal that rounds to the magnitude. -/
theorem decimal?_magnitudeText {rank : Nat} (hfinite : rank < infinityRank) :
    ∃ d k, decimal? (magnitudeText plainLayout rank) = some (d, k) ∧ rankOfDecimal d k = rank := by
  by_cases hrank : rank = 0
  · subst hrank
    exact ⟨0, 0, by decide, by decide⟩
  · have hrounds := decimalRounds_shortest true hrank
    rw [magnitudeText_plainLayout, decimal?_positionalText]
    generalize (shortest true rank).1 = d at hrounds ⊢
    generalize (shortest true rank).2 = k at hrounds ⊢
    split
    · next hk =>
      refine ⟨_, _, rfl, rankOfDecimal_eq hrank hfinite ?_⟩
      have hzero : (-k).toNat = 0 := by omega
      unfold DecimalRounds decimalNum decimalDen at hrounds ⊢
      rw [hzero] at hrounds
      simpa using hrounds
    · exact ⟨_, _, rfl, rankOfDecimal_eq hrank hfinite hrounds⟩

theorem toLower_of_isPlain {c : Char} (h : IsPlain c) : c.toLower = c := by
  rcases h with h | rfl
  · have hdigit : c.isDigit = true := by rwa [isDecimalDigit_eq] at h
    simp only [Char.isDigit, Bool.and_eq_true, decide_eq_true_eq] at hdigit
    have hupper : ¬(c.val ≥ 'A'.val ∧ c.val ≤ 'Z'.val) := by
      intro hletter
      exact absurd (UInt32.le_trans hletter.1 hdigit.2) (by decide)
    unfold Char.toLower
    rw [dif_neg hupper]
  · rfl

/-- A text of digits is no word. -/
theorem ofUnsigned?_of_isPlain {cs : List Char} (negative : Bool) (h : ∀ c ∈ cs, IsPlain c) :
    ofUnsigned? negative cs = (decimal? cs).map fun d => ofDecimal negative d.1 d.2 := by
  have hmap : cs.map Char.toLower = cs := by
    rw [List.map_congr_left (fun c hc => toLower_of_isPlain (h c hc)), List.map_id']
  have hword : ∀ w : String, 'n' ∈ w.toList → String.ofList cs ≠ w := by
    rintro w hw rfl
    rw [String.toList_ofList] at hw
    rcases h 'n' hw with hdigit | hpoint
    · exact absurd hdigit (by decide)
    · exact absurd hpoint (by decide)
  have hnan : String.ofList cs ≠ "nan" := hword _ (by decide)
  have hinf : String.ofList cs ≠ "inf" := hword _ (by decide)
  have hinfinity : String.ofList cs ≠ "infinity" := hword _ (by decide)
  unfold ofUnsigned?
  simp only [hmap]
  rw [if_neg hnan, if_neg (by simp [hinf, hinfinity])]

/-- The text of a magnitude, as it stands after the sign. -/
def unsignedText (rank : Nat) : List Char :=
  if rank = infinityRank then ['i', 'n', 'f'] else magnitudeText plainLayout rank

theorem isPlain_of_mem_unsignedText {rank : Nat} {c : Char} (h : c ∈ unsignedText rank) :
    IsPlain c ∨ c ∈ ['i', 'n', 'f'] := by
  unfold unsignedText at h
  split at h
  · exact .inr h
  · exact .inl (isPlain_of_mem_positionalText h)

theorem ofUnsigned?_unsignedText (negative : Bool) (rank : Fin (infinityRank + 1)) :
    ofUnsigned? negative (unsignedText rank.val) = some (.number negative rank) := by
  have hrank : rank.val ≤ infinityRank := Nat.le_of_lt_succ rank.isLt
  have hfinish : ofRank negative rank.val = .number negative rank := by
    unfold ofRank
    congr 1
    exact Fin.ext (Nat.min_eq_left hrank)
  unfold unsignedText
  split
  · next hinf =>
    rw [← hfinish, hinf]
    rfl
  · next hfinite =>
    have hlt : rank.val < infinityRank := by omega
    obtain ⟨d, k, hread, hround⟩ := decimal?_magnitudeText hlt
    have hplain : ∀ c ∈ magnitudeText plainLayout rank.val, IsPlain c := fun c hc =>
      isPlain_of_mem_positionalText hc
    rw [ofUnsigned?_of_isPlain negative hplain, hread, Option.map_some, ofDecimal, hround, hfinish]

theorem toList_plainText (negative : Bool) (rank : Fin (infinityRank + 1)) :
    (plainText (.number negative rank)).toList =
      if negative then '-' :: unsignedText rank.val else unsignedText rank.val := by
  rw [plainText, String.toList_ofList]
  rfl

/-- The text of a double is read as the double. -/
theorem ofText?_plainText {x : Binary64} (hx : x ≠ .nan) : ofText? x.plainText = some x := by
  cases x with
  | nan => exact absurd rfl hx
  | number negative rank =>
    have hread := ofUnsigned?_unsignedText negative rank
    unfold ofText?
    rw [toList_plainText]
    cases negative with
    | true => exact hread
    | false =>
      rw [if_neg (by decide)]
      have hsign : ∀ c ∈ unsignedText rank.val, c ≠ '+' ∧ c ≠ '-' := by
        intro c hc
        constructor
        all_goals
          rintro rfl
          rcases isPlain_of_mem_unsignedText hc with hplain | hword
          · exact absurd hplain (by unfold IsPlain; decide)
          · exact absurd hword (by decide)
      generalize unsignedText rank.val = cs at hread hsign
      split
      · next cs => exact absurd rfl (hsign '+' (List.mem_cons_self ..)).1
      · next cs => exact absurd rfl (hsign '-' (List.mem_cons_self ..)).2
      · exact hread

theorem trim_plainText (x : Binary64) : Text.trim x.plainText = x.plainText := by
  cases x with
  | nan => decide
  | number negative rank =>
    refine Text.trim_eq_self fun c hc => ?_
    have hunsigned : ∀ c ∈ unsignedText rank.val, Text.isBlank c = false := by
      intro c hc
      rcases isPlain_of_mem_unsignedText hc with (hdigit | rfl) | hword
      · rw [isDecimalDigit_eq] at hdigit
        exact Text.isBlank_of_isDigit hdigit
      · decide
      · simp only [List.mem_cons, List.not_mem_nil, or_false] at hword
        rcases hword with rfl | rfl | rfl <;> decide
    rw [toList_plainText] at hc
    split at hc
    · rcases List.mem_cons.mp hc with rfl | hc
      · decide
      · exact hunsigned c hc
    · exact hunsigned c hc

end Rendezvous.Binary64
