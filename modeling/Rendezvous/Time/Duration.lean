import Rendezvous.Text.Numeral
/-!
# Durations

Spans of time in whole nanoseconds. Instants are spans too, counted from the start of the clock.
The longest span that configuration can name has `2 ^ 64 - 1` seconds and all but one nanosecond of
another (`Duration.longest`); operations that could pass it say so in their type.

Two formats carry a span as a number of milliseconds in a word of 64 bits. Messages take the count
modulo the size of the word (`wireMillis`); stored settings stop at its greatest value
(`storedMillis`).
-/

namespace Rendezvous

/-- A span of time. -/
structure Duration where
  nanos : Nat
deriving DecidableEq, Inhabited

/-- A moment, as the span since the clock started. -/
abbrev Instant := Duration

namespace Duration

/-- A whole number of milliseconds. -/
def ofMillis (n : Nat) : Duration := ⟨n * 1000000⟩

/-- A whole number of seconds. -/
def ofSeconds (n : Nat) : Duration := ⟨n * 1000000000⟩

/-- The whole milliseconds of a span. -/
def millis (d : Duration) : Nat := d.nanos / 1000000

/-- The whole seconds of a span. -/
def seconds (d : Duration) : Nat := d.nanos / 1000000000

/-- The nanoseconds beyond the whole seconds. -/
def subsecondNanos (d : Duration) : Nat := d.nanos % 1000000000

/-- The longest span of seconds in a word of 64 bits and nanoseconds. -/
def longest : Duration := ⟨UInt64.size * 1000000000 - 1⟩

/-- The milliseconds as messages carry them: modulo the size of a word. -/
def wireMillis (d : Duration) : Nat := d.millis % UInt64.size

/-- The milliseconds as settings carry them: at most the greatest word. -/
def storedMillis (d : Duration) : Nat := min d.millis (UInt64.size - 1)

instance : Add Duration := ⟨fun a b => ⟨a.nanos + b.nanos⟩⟩

instance : LE Duration := ⟨fun a b => a.nanos ≤ b.nanos⟩

instance : LT Duration := ⟨fun a b => a.nanos < b.nanos⟩

instance (a b : Duration) : Decidable (a ≤ b) := inferInstanceAs (Decidable (a.nanos ≤ b.nanos))

instance (a b : Duration) : Decidable (a < b) := inferInstanceAs (Decidable (a.nanos < b.nanos))

instance : Min Duration := ⟨fun a b => if a ≤ b then a else b⟩

instance : Max Duration := ⟨fun a b => if a ≤ b then b else a⟩

/-- The span brought between two bounds; where they cross, the lower one counts. -/
def clamp (d low high : Duration) : Duration := min (max d low) (max high low)

/-- The span times a factor, unless that is longer than the longest one. -/
def scale? (d : Duration) (factor : Nat) : Option Duration :=
  if d.nanos * factor ≤ longest.nanos then some ⟨d.nanos * factor⟩ else none

/-- The milliseconds from `a` to `b`, negative if `b` is earlier. -/
def millisBetween (a b : Instant) : Int := (b.millis : Int) - a.millis

/-- A span of whole milliseconds in words: seconds with as many decimals as they need, or
milliseconds if it is shorter than a second, or nanoseconds if it is nothing. -/
def text (d : Duration) : String :=
  if d.millis = 0 then "0ns"
  else if d.millis < 1000 then String.ofList ((Text.ofNat d.millis).toList ++ ['m', 's'])
  else
    let whole := (Text.ofNat (d.millis / 1000)).toList
    let rest := d.millis % 1000
    let decimals := (Text.ofNat (1000 + rest)).toList.tail
    let shown := (decimals.reverse.dropWhile fun c => c = '0').reverse
    String.ofList (if rest = 0 then whole ++ ['s'] else whole ++ '.' :: (shown ++ ['s']))

theorem add_nanos (a b : Duration) : (a + b).nanos = a.nanos + b.nanos := rfl

theorem le_def (a b : Duration) : a ≤ b ↔ a.nanos ≤ b.nanos := Iff.rfl

theorem lt_def (a b : Duration) : a < b ↔ a.nanos < b.nanos := Iff.rfl

theorem min_nanos (a b : Duration) : (min a b).nanos = min a.nanos b.nanos := by
  show (if a ≤ b then a else b).nanos = _
  by_cases h : a ≤ b
  · rw [if_pos h]
    exact (Nat.min_eq_left h).symm
  · rw [if_neg h]
    exact (Nat.min_eq_right (Nat.le_of_not_le h)).symm

theorem max_nanos (a b : Duration) : (max a b).nanos = max a.nanos b.nanos := by
  show (if a ≤ b then b else a).nanos = _
  by_cases h : a ≤ b
  · rw [if_pos h]
    exact (Nat.max_eq_right h).symm
  · rw [if_neg h]
    exact (Nat.max_eq_left (Nat.le_of_not_le h)).symm

theorem millis_ofMillis (n : Nat) : (ofMillis n).millis = n := by
  simp [millis, ofMillis]

theorem wireMillis_lt (d : Duration) : d.wireMillis < UInt64.size := Nat.mod_lt _ (by decide)

theorem storedMillis_lt (d : Duration) : d.storedMillis < UInt64.size :=
  Nat.lt_of_le_of_lt (Nat.min_le_right _ _) (by decide)

theorem wireMillis_ofMillis {n : Nat} (h : n < UInt64.size) : (ofMillis n).wireMillis = n := by
  rw [wireMillis, millis_ofMillis, Nat.mod_eq_of_lt h]

theorem storedMillis_ofMillis {n : Nat} (h : n < UInt64.size) : (ofMillis n).storedMillis = n := by
  rw [storedMillis, millis_ofMillis, Nat.min_eq_left (Nat.le_sub_one_of_lt h)]

/-- A clamped span is between the bounds. -/
theorem clamp_bounds (d low high : Duration) :
    low ≤ d.clamp low high ∧ d.clamp low high ≤ max high low := by
  simp only [le_def, clamp, min_nanos, max_nanos]
  omega

end Duration

end Rendezvous
