/-!
# Blank characters

The characters with the Unicode property `White_Space`, and what is left of a text when they are
taken off its ends. Names, numerals and keywords are all read after trimming in this sense.
-/

namespace Rendezvous.Text

/-- The inclusive ranges of the code points with the property `White_Space`. -/
def blankRanges : List (Nat × Nat) :=
  [(0x09, 0x0D), (0x20, 0x20), (0x85, 0x85), (0xA0, 0xA0), (0x1680, 0x1680), (0x2000, 0x200A),
   (0x2028, 0x2029), (0x202F, 0x202F), (0x205F, 0x205F), (0x3000, 0x3000)]

/-- Whether a character is blank. -/
def isBlank (c : Char) : Bool :=
  blankRanges.any fun r => r.1 ≤ c.toNat && c.toNat ≤ r.2

/-- The characters without the blanks before the first and after the last other one. -/
def trimChars (cs : List Char) : List Char :=
  ((cs.dropWhile isBlank).reverse.dropWhile isBlank).reverse

/-- A text without the blanks at its ends. -/
def trim (s : String) : String := String.ofList (trimChars s.toList)

/-- Whether a text has no character but blanks. -/
def isBlankText (s : String) : Bool := s.toList.all isBlank

/-- A text with the letters A to Z in lower case and all else as it is. -/
def lowerAscii (s : String) : String := String.ofList (s.toList.map Char.toLower)

/-- Every character that core counts as white space is blank. -/
theorem isBlank_of_isWhitespace {c : Char} (h : c.isWhitespace = true) : isBlank c = true := by
  simp only [Char.isWhitespace, Bool.or_eq_true, decide_eq_true_eq] at h
  rcases h with ((rfl | rfl) | rfl) | rfl <;> rfl

private theorem dropWhile_eq_nil_iff {p : Char → Bool} {cs : List Char} :
    cs.dropWhile p = [] ↔ cs.all p = true := by
  induction cs with
  | nil => simp
  | cons c cs ih => by_cases h : p c <;> simp [h, ih]

/-- A text is blank exactly if trimming leaves nothing. -/
theorem trim_eq_empty_iff (s : String) : trim s = "" ↔ isBlankText s = true := by
  have key : ∀ cs : List Char, trimChars cs = [] ↔ cs.all isBlank = true := by
    intro cs
    rw [trimChars, List.reverse_eq_nil_iff, dropWhile_eq_nil_iff, List.all_reverse]
    constructor
    · intro h
      have := List.takeWhile_append_dropWhile (p := isBlank) (l := cs)
      rw [← this, List.all_append, h, Bool.and_true]
      exact List.all_takeWhile
    · intro h
      rw [(dropWhile_eq_nil_iff).mpr h]
      rfl
  rw [isBlankText, ← key, trim]
  constructor
  · intro h
    simpa using congrArg String.toList h
  · intro h
    rw [h]

end Rendezvous.Text
