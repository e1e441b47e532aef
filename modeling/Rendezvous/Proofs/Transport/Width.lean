import Mathlib.Data.Nat.Digits.Defs
import Rendezvous.Proofs.Text.Numeral
import Rendezvous.Proofs.Transport.Framing
/-!
# How long a line is

The bytes of a written tree, counted from the texts in it: each text takes what it takes between
quotation marks (`Text.width`), which is one byte for each character if all of them are plain, and
the names of the fields, the brackets and the commas take what they always take.
-/

namespace Rendezvous

namespace Text

open Utf8

/-- How many bytes a text takes as a string with its quotation marks. -/
def width (s : String) : Nat := (encode (Json.quoted s)).length

/-- Whether a character is written as itself, in one byte. -/
def Plain (c : Char) : Prop := 0x20 ≤ c.toNat ∧ c.toNat < 0x80 ∧ c ≠ '"' ∧ c ≠ '\\'

instance (c : Char) : Decidable (Plain c) := inferInstanceAs (Decidable (_ ∧ _))

theorem length_encode_singleton {c : Char} (h : c.toNat < 0x80) : (encode [c]).length = 1 := by
  show (encodeChar c ++ []).length = 1
  rw [encodeChar_ascii h]
  rfl

theorem Plain.escape_eq {c : Char} (h : Plain c) : Json.escape c = [c] := by
  obtain ⟨hlow, -, hquote, hslash⟩ := h
  have hne {d : Char} (hd : d.toNat < 0x20) : c ≠ d := fun heq => by
    rw [heq] at hlow
    omega
  unfold Json.escape
  rw [if_neg hquote, if_neg hslash, if_neg (hne (by decide)), if_neg (hne (by decide)),
    if_neg (hne (by decide)), if_neg (hne (by decide)), if_neg (hne (by decide)),
    if_neg (Nat.not_lt.mpr hlow)]

theorem width_eq (s : String) :
    width s = (s.toList.map fun c => (encode (Json.escape c)).length).sum + 2 := by
  show (encodeChar '"' ++ encode (s.toList.flatMap Json.escape ++ ['"'])).length = _
  rw [encode_append, List.length_append, List.length_append,
    length_encode_singleton (by decide : '"'.toNat < 0x80), encodeChar_ascii (by decide)]
  have hescaped : (encode (s.toList.flatMap Json.escape)).length =
      (s.toList.map fun c => (encode (Json.escape c)).length).sum := by
    unfold encode
    rw [List.flatMap_assoc, List.length_flatMap]
  rw [hescaped, List.length_singleton]
  omega

/-- A text of plain characters takes as many bytes as it has characters, and its quotation marks. -/
theorem width_of_plain {s : String} (h : ∀ c ∈ s.toList, Plain c) : width s = s.length + 2 := by
  have hone : s.toList.map (fun c => (encode (Json.escape c)).length) =
      s.toList.map fun _ => 1 := by
    refine List.map_congr_left fun c hc => ?_
    rw [(h c hc).escape_eq, length_encode_singleton (h c hc).2.1]
  rw [width_eq, hone]
  simp [String.length_toList]

theorem plain_of_isDigit {c : Char} (h : c.isDigit = true) : Plain c := by
  simp only [Char.isDigit, Bool.and_eq_true, decide_eq_true_eq] at h
  have hlow : 48 ≤ c.toNat := h.1
  have hhigh : c.toNat ≤ 57 := h.2
  have hne {d : Char} (hd : ¬ (48 ≤ d.toNat ∧ d.toNat ≤ 57)) : c ≠ d := fun heq =>
    hd (heq ▸ ⟨hlow, hhigh⟩)
  exact ⟨by omega, by omega, hne (by decide), hne (by decide)⟩

/-- A number that fits a word takes at most twenty digits. -/
theorem width_ofNat_le {n : Nat} (h : n < UInt64.size) : width (ofNat n) ≤ 22 := by
  have hlength : (ofNat n).length ≤ 20 :=
    Nat.repr_length n 20 (by decide) (Nat.lt_trans h (by decide))
  rw [width_of_plain fun c hc => plain_of_isDigit (isDigit_of_mem_ofNat hc)]
  omega

end Text

namespace Framing

open Text Text.Utf8

theorem length_content_leaf (name v : String) :
    (content (.leaf name v)).length = width name + width v + 18 := by
  rw [content, Node.toJson_eq]
  show (encode (['\x7b'] ++ ((Json.quoted "name" ++ ([':'] ++ (Json.quoted name ++ ([','] ++
    (Json.quoted "value" ++ ([':'] ++ Json.quoted v)))))) ++ ['\x7d']))).length = _
  have hname : (encode (Json.quoted "name")).length = 6 := by decide
  have hvalue : (encode (Json.quoted "value")).length = 7 := by decide
  simp (disch := decide) only [encode_append, List.length_append, length_encode_singleton, hname,
    hvalue, ← width.eq_1]
  omega

theorem length_compactItems {ns : List Node} (hne : ns ≠ []) :
    (encode (Json.compactItems (ns.map Node.toJson))).length + 1 =
      (ns.map fun n => (content n).length + 1).sum := by
  induction ns with
  | nil => exact absurd rfl hne
  | cons n ns ih =>
    cases ns with
    | nil => rfl
    | cons next ns =>
      have hrest := ih (List.cons_ne_nil _ _)
      have hitems : Json.compactItems ((n :: next :: ns).map Node.toJson) =
          n.toJson.compact ++ ([','] ++ Json.compactItems ((next :: ns).map Node.toJson)) := rfl
      rw [List.map_cons (f := fun n => (content n).length + 1), List.sum_cons, ← hrest, hitems,
        encode_append, encode_append, List.length_append, List.length_append,
        length_encode_singleton (by decide), content]
      omega

theorem length_content_branch (name : String) {cs : List Node} (hne : cs ≠ []) :
    (content (.branch name cs)).length =
      width name + (cs.map fun c => (content c).length + 1).sum + 22 := by
  obtain ⟨c, cs, rfl⟩ := List.exists_cons_of_ne_nil hne
  rw [content, Node.toJson_eq, ← length_compactItems hne]
  show (encode (['\x7b'] ++ ((Json.quoted "name" ++ ([':'] ++ (Json.quoted name ++ ([','] ++
    (Json.quoted "children" ++ ([':'] ++ (['['] ++
      (Json.compactItems ((c :: cs).map Node.toJson) ++ [']'])))))))) ++ ['\x7d']))).length = _
  have hname : (encode (Json.quoted "name")).length = 6 := by decide
  have hchildren : (encode (Json.quoted "children")).length = 10 := by decide
  simp (disch := decide) only [encode_append, List.length_append, length_encode_singleton, hname,
    hchildren, ← width.eq_1]
  omega

theorem length_content_empty (name : String) :
    (content (.branch name [])).length = width name + 9 := by
  rw [content, Node.toJson_eq]
  show (encode (['\x7b'] ++ ((Json.quoted "name" ++ ([':'] ++ Json.quoted name)) ++
    ['\x7d']))).length = _
  have hname : (encode (Json.quoted "name")).length = 6 := by decide
  simp (disch := decide) only [encode_append, List.length_append, length_encode_singleton, hname,
    ← width.eq_1]
  omega

end Framing

end Rendezvous
