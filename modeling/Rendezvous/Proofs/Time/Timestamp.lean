import Mathlib.Algebra.Group.Nat.Defs
import Rendezvous.Proofs.Text.Numeral
import Rendezvous.Proofs.Time.Calendar
/-!
# Timestamps that are written and read again

The text of a moment of the calendar is read as this moment (`Timestamp.ofText?_text`). Each part of
the text is taken by its reader, which gives back what follows; the part ends because no digit
follows it.
-/

namespace Rendezvous.Timestamp

/-- Whether a timestamp is a moment of the calendar: it is in a year that has dates, and a second
that is inserted comes after the last one of a minute. -/
structure IsMoment (t : Timestamp) : Prop where
  hasDate : HasDate (t.seconds / 86400)
  nanos_lt : t.nanos < 2000000000
  leap : 1000000000 ≤ t.nanos → t.seconds % 60 = 59

/-! ## Numbers of a fixed width -/

theorem isDigit_of_mem_padded {width n : Nat} {c : Char} (h : c ∈ padded width n) :
    c.isDigit = true := by
  rcases List.mem_append.mp h with hzero | hdigit
  · rw [List.eq_of_mem_replicate hzero]
    rfl
  · exact Text.isDigit_of_mem_ofNat hdigit

theorem naturalOfDigits?_padded (width n : Nat) :
    Text.naturalOfDigits? (padded width n) = some n :=
  Text.naturalOfDigits?_zeros _ n

theorem length_padded {width n : Nat} (hwidth : 0 < width) (h : n < 10 ^ width) :
    (padded width n).length = width := by
  have hdigits : (Text.ofNat n).toList.length ≤ width := by
    rw [Text.toList_ofNat]
    exact (Nat.length_toDigits_le_iff (by decide) hwidth).mpr h
  unfold padded
  simp only [List.length_append, List.length_replicate]
  omega

/-- The first character of a number is a digit. -/
theorem padded_eq_cons (width n : Nat) : ∃ c cs, padded width n = c :: cs ∧ c.isDigit = true := by
  cases h : padded width n with
  | nil =>
    have hread := naturalOfDigits?_padded width n
    rw [h] at hread
    cases hread
  | cons c cs => exact ⟨c, cs, rfl, isDigit_of_mem_padded (h ▸ List.mem_cons_self ..)⟩

/-! ## Taking parts off a text -/

/-- Whether a text does not start with a digit. -/
def NoDigit (cs : List Char) : Prop := ∀ c rest, cs = c :: rest → c.isDigit = false

theorem noDigit_cons {c : Char} (h : c.isDigit = false) (rest : List Char) :
    NoDigit (c :: rest) := by
  intro c' rest' heq
  cases heq
  exact h

theorem takeWhile_digits {ds rest : List Char} (hds : ∀ c ∈ ds, c.isDigit = true)
    (hrest : NoDigit rest) :
    ((ds ++ rest).takeWhile fun c => (Text.digitValue? c).isSome) = ds := by
  rw [List.takeWhile_append_of_pos fun c hc => by rw [Text.isSome_digitValue?, hds c hc]]
  cases rest with
  | nil => simp
  | cons c rest =>
    have hc : (Text.digitValue? c).isSome = false := by
      rw [Text.isSome_digitValue?]
      exact hrest c rest rfl
    simp [hc]

theorem noDigit_take {rest : List Char} (h : NoDigit rest) (n : Nat) : NoDigit (rest.take n) := by
  intro c rest' heq
  cases rest with
  | nil => simp at heq
  | cons d rest =>
    cases n with
    | zero => cases heq
    | succ n =>
      cases heq
      exact h _ _ rfl

theorem takeDigits_padded {limit width n : Nat} {rest : List Char}
    (hlength : (padded width n).length ≤ limit) (hrest : NoDigit rest) :
    takeDigits limit (padded width n ++ rest) = some (n, rest) := by
  have hdigits : (((padded width n ++ rest).take limit).takeWhile
      fun c => (Text.digitValue? c).isSome) = padded width n := by
    rw [List.take_append, List.take_of_length_le hlength]
    exact takeWhile_digits (fun _ h => isDigit_of_mem_padded h) (noDigit_take hrest _)
  unfold takeDigits
  simp only [hdigits, naturalOfDigits?_padded, Option.map_some, List.drop_left]

theorem skipBlanks_cons {c : Char} (h : Text.isBlank c = false) (rest : List Char) :
    skipBlanks (c :: rest) = c :: rest := by
  unfold skipBlanks
  rw [List.dropWhile_cons_of_neg (by simp [h])]

theorem not_isBlank_of_isDigit {c : Char} (h : c.isDigit = true) : Text.isBlank c = false := by
  have hrange : 48 ≤ c.toNat ∧ c.toNat ≤ 57 := by
    simpa [Char.isDigit, Char.le_def, UInt32.le_iff_toNat_le] using h
  simp [Text.isBlank, Text.blankRanges]
  omega

theorem takeNumber_padded {n : Nat} (h : n < 100) {rest : List Char} (hrest : NoDigit rest) :
    takeNumber 2 (padded 2 n ++ rest) = some (n, rest) := by
  obtain ⟨c, cs, hcons, hc⟩ := padded_eq_cons 2 n
  unfold takeNumber
  have hskip : skipBlanks (padded 2 n ++ rest) = padded 2 n ++ rest := by
    rw [hcons]
    exact skipBlanks_cons (not_isBlank_of_isDigit hc) _
  rw [hskip]
  exact takeDigits_padded (Nat.le_of_eq (length_padded (by decide) h)) hrest

theorem takeMark_cons {mark : Char} (h : Text.isBlank mark = false) (rest : List Char) :
    takeMark mark (mark :: rest) = some rest := by
  unfold takeMark
  rw [skipBlanks_cons h]
  exact if_pos rfl

/-- A year as it is written. -/
def yearText (year : Int) : List Char :=
  if 0 ≤ year ∧ year ≤ 9999 then padded 4 year.toNat
  else (if year < 0 then '-' else '+') :: padded 4 year.natAbs

theorem takeYear_yearText (year : Int) {rest : List Char} (hrest : NoDigit rest) :
    takeYear (yearText year ++ rest) = some (year, rest) := by
  have hlength : ∀ n, (padded 4 n).length ≤ (padded 4 n ++ rest).length := by
    intro n
    rw [List.length_append]
    exact Nat.le_add_right ..
  unfold yearText takeYear
  by_cases hyear : 0 ≤ year ∧ year ≤ 9999
  · rw [if_pos hyear]
    obtain ⟨c, cs, hcons, hc⟩ := padded_eq_cons 4 year.toNat
    have hskip : skipBlanks (padded 4 year.toNat ++ rest) = c :: (cs ++ rest) := by
      rw [hcons]
      exact skipBlanks_cons (not_isBlank_of_isDigit hc) _
    have hminus : c ≠ '-' := by
      rintro rfl
      exact absurd hc (by decide)
    have hplus : c ≠ '+' := by
      rintro rfl
      exact absurd hc (by decide)
    have htake : takeDigits 4 (c :: (cs ++ rest)) = some (year.toNat, rest) := by
      rw [← List.cons_append, ← hcons]
      exact takeDigits_padded (Nat.le_of_eq (length_padded (by decide) (by omega))) hrest
    rw [hskip]
    split
    · next heq => exact absurd (List.cons.inj heq).1 hminus
    · next heq => exact absurd (List.cons.inj heq).1 hplus
    · rw [htake]
      simp only [Option.map_some, Option.some.injEq, Prod.mk.injEq, and_true]
      omega
  · rw [if_neg hyear]
    by_cases hneg : year < 0
    · rw [if_pos hneg, List.cons_append, skipBlanks_cons (by decide)]
      simp only [takeDigits_padded (hlength _) hrest, Option.map_some, Option.some.injEq,
        Prod.mk.injEq, and_true]
      omega
    · rw [if_neg hneg, List.cons_append, skipBlanks_cons (by decide)]
      simp only [takeDigits_padded (hlength _) hrest, Option.map_some, Option.some.injEq,
        Prod.mk.injEq, and_true]
      omega

theorem dropWhile_digits {ds rest : List Char} (hds : ∀ c ∈ ds, c.isDigit = true)
    (hrest : NoDigit rest) :
    ((ds ++ rest).dropWhile fun c => (Text.digitValue? c).isSome) = rest := by
  have hsplit := List.takeWhile_append_dropWhile
    (p := fun c => (Text.digitValue? c).isSome) (l := ds ++ rest)
  rw [takeWhile_digits hds hrest] at hsplit
  exact List.append_cancel_left hsplit

/-- Decimals of a fraction of a second. -/
theorem takeFraction_padded {width n : Nat} (hwidth : 0 < width) (hnine : width ≤ 9)
    (h : n < 10 ^ width) {rest : List Char} (hrest : NoDigit rest) :
    takeFraction ('.' :: padded width n ++ rest) = some (n * 10 ^ (9 - width), rest) := by
  have hdigits : ∀ c ∈ padded width n, c.isDigit = true := fun _ h => isDigit_of_mem_padded h
  have hlength : (padded width n).length = width := length_padded hwidth h
  rw [List.cons_append]
  unfold takeFraction
  simp only [takeWhile_digits hdigits hrest, dropWhile_digits hdigits hrest]
  rw [List.take_of_length_le (by omega), naturalOfDigits?_padded, hlength]
  rfl

theorem takeFraction_fractionText {nanos : Nat} (h : nanos < 1000000000) :
    takeFraction (fractionText nanos ++ ['Z']) = some (nanos, ['Z']) := by
  have hrest : NoDigit ['Z'] := noDigit_cons rfl _
  unfold fractionText
  split
  · next hzero =>
    rw [hzero]
    rfl
  split
  · next hmilli =>
    rw [takeFraction_padded (by decide) (by decide) (by omega) hrest]
    simp only [Option.some.injEq, Prod.mk.injEq, and_true]
    omega
  split
  · next hmicro =>
    rw [takeFraction_padded (by decide) (by decide) (by omega) hrest]
    simp only [Option.some.injEq, Prod.mk.injEq, and_true]
    omega
  · rw [takeFraction_padded (by decide) (by decide) (by omega) hrest]
    simp

/-! ## The whole text -/

/-- The text of a date and the time of a day. -/
def partsText (year : Int) (month day hour minute second nanos : Nat) : List Char :=
  yearText year ++ ('-' :: (padded 2 month ++ ('-' :: (padded 2 day ++ ('T' :: (padded 2 hour ++
    (':' :: (padded 2 minute ++ (':' :: (padded 2 second ++ (fractionText nanos ++ ['Z'])))))))))))

theorem toList_text (t : Timestamp) :
    t.text.toList =
      partsText (dateOf (t.seconds / 86400)).1 (dateOf (t.seconds / 86400)).2.1
        (dateOf (t.seconds / 86400)).2.2 ((t.seconds % 86400).toNat / 3600)
        ((t.seconds % 86400).toNat / 60 % 60)
        ((t.seconds % 86400).toNat % 60 + t.nanos / 1000000000) (t.nanos % 1000000000) := by
  unfold text partsText yearText
  simp only [String.toList_ofList, List.append_assoc, List.cons_append]

theorem noDigit_fraction (nanos : Nat) : NoDigit (fractionText nanos ++ ['Z']) := by
  unfold fractionText
  split
  · exact noDigit_cons rfl _
  split
  · exact noDigit_cons rfl _
  split
  · exact noDigit_cons rfl _
  · exact noDigit_cons rfl _

/-- What the readers take off one after the other is a date and the time of a day. -/
theorem ofText?_of_taken {s : String} {year : Int} {month day hour minute second nanos : Nat}
    {cs₁ cs₂ cs₃ cs₄ cs₅ cs₆ : List Char} (takesYear : takeYear s.toList = some (year, '-' :: cs₁))
    (takesMonth : takeNumber 2 cs₁ = some (month, '-' :: cs₂))
    (takesDay : takeNumber 2 cs₂ = some (day, 'T' :: cs₃))
    (takesHour : takeNumber 2 cs₃ = some (hour, ':' :: cs₄))
    (takesMinute : takeNumber 2 cs₄ = some (minute, ':' :: cs₅))
    (takesSecond : takeNumber 2 cs₅ = some (second, cs₆))
    (takesNanos : takeFraction cs₆ = some (nanos, ['Z']))
    (hdate : isDate year month day = true) (hhour : hour < 24) (hminute : minute < 60)
    (hsecond : second ≤ 60)
    (hrange : HasDate ((dayNumber year month day * 86400 +
      (hour * 3600 + minute * 60 + (second - second / 60) : Nat)) / 86400)) :
    ofText? s = some ⟨dayNumber year month day * 86400 +
      (hour * 3600 + minute * 60 + (second - second / 60) : Nat),
      nanos + second / 60 * 1000000000⟩ := by
  obtain ⟨hlow, hhigh⟩ := hrange
  have dash : ∀ rest, takeMark '-' ('-' :: rest) = some rest := takeMark_cons (by decide)
  have colon : ∀ rest, takeMark ':' (':' :: rest) = some rest := takeMark_cons (by decide)
  have zone : takeOffset (skipBlanks ['Z']) = some (0, []) := rfl
  have conditions : isDate year month day = true ∧ hour < 24 ∧ minute < 60 ∧ second ≤ 60 ∧
      skipBlanks [] = [] := ⟨hdate, hhour, hminute, hsecond, rfl⟩
  unfold ofText?
  -- The date.
  refine Option.bind_eq_some_iff.mpr ⟨_, takesYear, ?_⟩
  refine Option.bind_eq_some_iff.mpr ⟨_, dash _, ?_⟩
  refine Option.bind_eq_some_iff.mpr ⟨_, takesMonth, ?_⟩
  refine Option.bind_eq_some_iff.mpr ⟨_, dash _, ?_⟩
  refine Option.bind_eq_some_iff.mpr ⟨_, takesDay, ?_⟩
  -- The time of the day, after its letter.
  refine Option.bind_eq_some_iff.mpr ⟨_, takesHour, ?_⟩
  refine Option.bind_eq_some_iff.mpr ⟨_, colon _, ?_⟩
  refine Option.bind_eq_some_iff.mpr ⟨_, takesMinute, ?_⟩
  refine Option.bind_eq_some_iff.mpr ⟨_, colon _, ?_⟩
  refine Option.bind_eq_some_iff.mpr ⟨_, takesSecond, ?_⟩
  refine Option.bind_eq_some_iff.mpr ⟨_, takesNanos, ?_⟩
  refine Option.bind_eq_some_iff.mpr ⟨_, zone, ?_⟩
  simp only [Int.sub_zero]
  rw [if_pos conditions, if_pos ⟨hlow, hhigh⟩]

/-- Every part is taken by its reader. -/
theorem ofText?_partsText (year : Int) {month day hour minute second nanos : Nat}
    (hmonth : month < 100) (hday : day < 100) (hhour : hour < 24) (hminute : minute < 60)
    (hsecond : second ≤ 60) (hnanos : nanos < 1000000000) (hdate : isDate year month day = true)
    (hrange : HasDate ((dayNumber year month day * 86400 +
      (hour * 3600 + minute * 60 + (second - second / 60) : Nat)) / 86400)) :
    ofText? (String.ofList (partsText year month day hour minute second nanos)) =
      some ⟨dayNumber year month day * 86400 +
        (hour * 3600 + minute * 60 + (second - second / 60) : Nat),
        nanos + second / 60 * 1000000000⟩ := by
  have number : ∀ {n : Nat} {c : Char} (rest : List Char), n < 100 → c.isDigit = false →
      takeNumber 2 (padded 2 n ++ c :: rest) = some (n, c :: rest) := by
    intro n c rest hn hc
    exact takeNumber_padded hn (noDigit_cons hc rest)
  have takesYear : ∀ rest, takeYear (yearText year ++ '-' :: rest) = some (year, '-' :: rest) := by
    intro rest
    exact takeYear_yearText year (noDigit_cons rfl rest)
  unfold partsText
  refine ofText?_of_taken ?_ (number _ hmonth rfl) (number _ hday rfl)
    (number _ (by omega) rfl) (number _ (by omega) rfl)
    (takeNumber_padded (by omega) (noDigit_fraction nanos)) (takeFraction_fractionText hnanos)
    hdate hhour hminute hsecond hrange
  rw [String.toList_ofList]
  exact takesYear _

/-- A moment of the calendar is read as itself. -/
theorem ofText?_text {t : Timestamp} (h : t.IsMoment) : ofText? t.text = some t := by
  obtain ⟨hasDate, hnanos, hleap⟩ := h
  obtain ⟨h1, h2, h3, h4⟩ := dateOf_range (t.seconds / 86400)
  have htext : t.text = String.ofList t.text.toList := String.ofList_toList.symm
  rw [htext, toList_text]
  have hnumber := dayNumber_dateOf (t.seconds / 86400)
  have htime : dayNumber (dateOf (t.seconds / 86400)).1 (dateOf (t.seconds / 86400)).2.1
        (dateOf (t.seconds / 86400)).2.2 * 86400 +
      ((t.seconds % 86400).toNat / 3600 * 3600 + (t.seconds % 86400).toNat / 60 % 60 * 60 +
        ((t.seconds % 86400).toNat % 60 + t.nanos / 1000000000 -
          ((t.seconds % 86400).toNat % 60 + t.nanos / 1000000000) / 60) : Nat) = t.seconds := by
    rw [hnumber]
    omega
  rw [ofText?_partsText _ (by omega) (by omega) (by omega) (by omega) (by omega) (by omega)
    (isDate_dateOf hasDate) (by rw [htime]; exact hasDate), htime]
  have hfraction : t.nanos % 1000000000 +
      ((t.seconds % 86400).toNat % 60 + t.nanos / 1000000000) / 60 * 1000000000 = t.nanos := by
    omega
  rw [hfraction]

end Rendezvous.Timestamp
