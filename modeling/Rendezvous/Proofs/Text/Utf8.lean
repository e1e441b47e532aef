import Rendezvous.Text.Utf8
/-!
# Text as bytes and back

Every text is read from its own bytes as it is (`Text.Utf8.decode_encode`): the first byte of a
character says how many there are, and each of the others carries six bits. A byte below 128 stands
for the character with its number and is part of no other one (`Text.Utf8.mem_encode_ascii`), so the
bytes of a text have an end of line exactly where the text has one.
-/

namespace Rendezvous.Text.Utf8

theorem toNat_toUInt8 {n : Nat} (h : n < 0x100) : n.toUInt8.toNat = n := by
  rw [Nat.toUInt8_eq, UInt8.toNat_ofNat']
  exact Nat.mod_eq_of_lt h

theorem charOf?_toNat (c : Char) {width least : Nat} (h : least ≤ c.toNat) :
    charOf? c.toNat width least = some (c, width) := by
  have hvalid : c.toNat.isValidChar := c.valid
  unfold charOf?
  rw [dif_pos ⟨h, hvalid⟩]
  rfl

/-- A byte that carries six bits, as one after the first of a character. -/
theorem tailBits?_toUInt8 {n : Nat} (h : n < 0x40) : tailBits? (0x80 + n).toUInt8 = some n := by
  unfold tailBits?
  rw [toNat_toUInt8 (by omega), if_pos (by omega), Nat.add_sub_cancel_left]

theorem toNat_lt (c : Char) : c.toNat < 0x110000 := by
  have hvalid := c.valid
  simp only [UInt32.isValidChar, Nat.isValidChar] at hvalid
  show c.val.toNat < 0x110000
  omega

/-- A character is read from its own bytes, whatever follows. -/
theorem first?_encodeChar (c : Char) (rest : List UInt8) :
    first? (encodeChar c ++ rest) = some (c, (encodeChar c).length) := by
  have hlt : c.toNat < 0x110000 := toNat_lt c
  unfold encodeChar
  dsimp only
  split
  · next h =>
    have hfirst : c.toNat.toUInt8.toNat = c.toNat := toNat_toUInt8 (by omega)
    simp only [List.cons_append, first?, hfirst, if_pos h]
    exact charOf?_toNat c (Nat.zero_le _)
  split
  · next hmin h =>
    have hfirst : (0xC0 + c.toNat / 64).toUInt8.toNat = 0xC0 + c.toNat / 64 :=
      toNat_toUInt8 (by omega)
    have hbits : (0xC0 + c.toNat / 64 - 0xC0) * 64 + c.toNat % 64 = c.toNat := by omega
    simp only [List.cons_append, first?, hfirst, tailBits?_toUInt8 (Nat.mod_lt _ (by decide))]
    rw [if_neg (by omega), if_neg (by omega), if_pos (by omega), hbits]
    exact charOf?_toNat c (by omega)
  split
  · next hmin h =>
    have hfirst : (0xE0 + c.toNat / 4096).toUInt8.toNat = 0xE0 + c.toNat / 4096 :=
      toNat_toUInt8 (by omega)
    have hbits : (0xE0 + c.toNat / 4096 - 0xE0) * 4096 + c.toNat / 64 % 64 * 64 + c.toNat % 64 =
        c.toNat := by omega
    simp only [List.cons_append, first?, hfirst, tailBits?_toUInt8 (Nat.mod_lt _ (by decide))]
    rw [if_neg (by omega), if_neg (by omega), if_neg (by omega), if_pos (by omega), hbits]
    exact charOf?_toNat c (by omega)
  · next hmin =>
    have hfirst : (0xF0 + c.toNat / 262144).toUInt8.toNat = 0xF0 + c.toNat / 262144 :=
      toNat_toUInt8 (by omega)
    have hbits : (0xF0 + c.toNat / 262144 - 0xF0) * 262144 + c.toNat / 4096 % 64 * 4096 +
        c.toNat / 64 % 64 * 64 + c.toNat % 64 = c.toNat := by omega
    simp only [List.cons_append, first?, hfirst, tailBits?_toUInt8 (Nat.mod_lt _ (by decide))]
    rw [if_neg (by omega), if_neg (by omega), if_neg (by omega), if_neg (by omega),
      if_pos (by omega), hbits]
    exact charOf?_toNat c (by omega)

theorem encodeChar_ne_nil (c : Char) : encodeChar c ≠ [] := by
  unfold encodeChar
  dsimp only
  split
  · simp
  split
  · simp
  split <;> simp

/-- Bytes that are to be skipped are skipped. -/
theorem decodeFrom_skip (done : List (Option Char)) (skipped rest : List UInt8) :
    decodeFrom skipped.length done (skipped ++ rest) = decodeFrom 0 done rest := by
  induction skipped with
  | nil => rfl
  | cons b skipped ih => exact ih

theorem decodeFrom_encodeChar (done : List (Option Char)) (c : Char) (rest : List UInt8) :
    decodeFrom 0 done (encodeChar c ++ rest) = decodeFrom 0 (some c :: done) rest := by
  have hfirst : first? (encodeChar c ++ rest) = some (c, (encodeChar c).length) :=
    first?_encodeChar c rest
  cases hbytes : encodeChar c with
  | nil => exact absurd hbytes (encodeChar_ne_nil c)
  | cons b more =>
    rw [hbytes, List.cons_append] at hfirst
    rw [List.cons_append, decodeFrom]
    simp only [hfirst, List.length_cons, Nat.add_sub_cancel]
    exact decodeFrom_skip (some c :: done) more rest

theorem decodeFrom_encode (done : List (Option Char)) (cs : List Char) :
    decodeFrom 0 done (encode cs) = done.reverse ++ cs.map some := by
  induction cs generalizing done with
  | nil => simp [encode, decodeFrom]
  | cons c cs ih =>
    show decodeFrom 0 done (encodeChar c ++ encode cs) = _
    rw [decodeFrom_encodeChar, ih]
    simp

/-- What is read of the bytes of a text is the text. -/
theorem decode_encode (cs : List Char) : decode (encode cs) = cs.map some :=
  decodeFrom_encode [] cs

theorem encodeChar_ascii {c : Char} (h : c.toNat < 0x80) : encodeChar c = [c.toNat.toUInt8] :=
  if_pos h

/-- The bytes of a character past the first 128 are none of the first 128 themselves. -/
theorem le_of_mem_encodeChar {c : Char} (h : 0x80 ≤ c.toNat) {b : UInt8} (hb : b ∈ encodeChar c) :
    0x80 ≤ b.toNat := by
  have hlt : c.toNat < 0x110000 := toNat_lt c
  have high {n : Nat} (hlow : 0x80 ≤ n) (hhigh : n < 0x100) : 0x80 ≤ n.toUInt8.toNat := by
    rw [toNat_toUInt8 hhigh]
    exact hlow
  unfold encodeChar at hb
  dsimp only at hb
  rw [if_neg (by omega)] at hb
  split at hb
  · simp only [List.mem_cons, List.not_mem_nil, or_false] at hb
    rcases hb with rfl | rfl <;> exact high (by omega) (by omega)
  split at hb
  · simp only [List.mem_cons, List.not_mem_nil, or_false] at hb
    rcases hb with rfl | rfl | rfl <;> exact high (by omega) (by omega)
  · simp only [List.mem_cons, List.not_mem_nil, or_false] at hb
    rcases hb with rfl | rfl | rfl | rfl <;> exact high (by omega) (by omega)

/-- A byte below 128 in the bytes of a text stands for the character of its number. -/
theorem mem_encode_ascii {cs : List Char} {b : UInt8} (hb : b ∈ encode cs) (h : b.toNat < 0x80) :
    ∃ c ∈ cs, c.toNat = b.toNat := by
  obtain ⟨c, hc, hmem⟩ := List.mem_flatMap.mp hb
  refine ⟨c, hc, ?_⟩
  rcases Nat.lt_or_ge c.toNat 0x80 with hascii | hlarge
  · rw [encodeChar_ascii hascii] at hmem
    rw [List.mem_singleton.mp hmem, toNat_toUInt8 (by omega)]
  · have := le_of_mem_encodeChar hlarge hmem
    omega

theorem encode_append (cs ds : List Char) : encode (cs ++ ds) = encode cs ++ encode ds :=
  List.flatMap_append

end Rendezvous.Text.Utf8
