import Rendezvous.Component.Value
import Rendezvous.Proofs.Message.Node
import Rendezvous.Proofs.Number.Written
/-!
# Typed values as texts

Which texts are kinds and which are values of a kind, said without the readers, and that a value is
read from its text again under its own kind. A double that is no number is the one value of which
this is not said: it is written and read as a word, but equals nothing.
-/

namespace Rendezvous

namespace ValueKind

/-- The words for a kind. -/
def words : ValueKind → List String
  | string => ["string"]
  | integer => ["integer", "int", "long", "short"]
  | float => ["float", "double"]
  | boolean => ["boolean", "bool"]

theorem ofText_name (k : ValueKind) : ofText k.name = .ok k := by
  cases k <;> rfl

/-- The words of the kinds are different, so that the first kind that fits is the only one. -/
theorem ofText_eq_ok {raw : String} {k : ValueKind} :
    ofText raw = .ok k ↔ Text.lowerAscii (Text.trim raw) ∈ k.words := by
  unfold ofText
  generalize Text.lowerAscii (Text.trim raw) = word
  simp only
  split
  · next h => cases k <;> simp [words, h]
  · split
    · next h =>
      rcases h with h | h | h | h <;> cases k <;> simp [words, h]
    · split
      · next h =>
        rcases h with h | h <;> cases k <;> simp [words, h]
      · split
        · next h =>
          rcases h with h | h <;> cases k <;> simp [words, h]
        · cases k <;> simp_all [words]

/-- Whether a node declares a kind, which is that of texts where the node says nothing. -/
def DeclaredBy (n : Node) (k : ValueKind) : Prop :=
  match n.valueOf? "type" with
  | some raw => Text.lowerAscii (Text.trim raw) ∈ k.words
  | none => k = .string

theorem bind_declared {α : Type} {n : Node} {f : ValueKind → Except DecodeError α} {a : α} :
    (match n.valueOf? "type" with
      | some raw => ofText raw >>= f
      | none => Except.ok string >>= f) = .ok a ↔ ∃ k, DeclaredBy n k ∧ f k = .ok a := by
  unfold DeclaredBy
  cases n.valueOf? "type" with
  | none => simp [Node.ok_bind]
  | some raw =>
    simp only [← ofText_eq_ok]
    exact Node.bind_eq_ok

end ValueKind

namespace Value

/-- Whether a text is one of a value of a kind. -/
def Reads (kind : ValueKind) (raw : String) : Prop :=
  match kind with
  | .string => True
  | .integer => ∃ i, Text.integer? (Text.trim raw) = some i
  | .float => ∃ x, Binary64.ofText? (Text.trim raw) = some x
  | .boolean => Text.trim raw = "true" ∨ Text.trim raw = "false"

/-- A value that is no absent number is read from its text. -/
theorem ofText_text {v : Value} (h : v ≠ .float .nan) : ofText v.kind v.text = .ok v := by
  cases v with
  | string s => rfl
  | integer i =>
    simp only [ofText, kind, text, Text.trim_ofInt, Text.integer?_ofInt, Option.map_some]
  | float x =>
    have hx : x ≠ .nan := fun hnan => h (congrArg Value.float hnan)
    simp only [ofText, kind, text, Binary64.trim_plainText, Binary64.ofText?_plainText hx,
      Option.map_some]
  | boolean b =>
    simp only [ofText, kind, text, Text.trim_ofBool, Text.truth?_ofBool, Option.map_some]

/-- What is read under a kind from a text. -/
def ReadFrom (kind : ValueKind) (raw : String) : Value → Prop
  | string s => kind = .string ∧ raw = s
  | integer i => kind = .integer ∧ Text.integer? (Text.trim raw) = some i
  | float x => kind = .float ∧ Binary64.ofText? (Text.trim raw) = some x
  | boolean b => kind = .boolean ∧ Text.truth? (Text.trim raw) = some b

theorem ofText_eq_ok {kind : ValueKind} {raw : String} {v : Value} :
    ofText kind raw = .ok v ↔ v.ReadFrom kind raw := by
  unfold ofText
  dsimp only
  cases kind with
  | string => cases v <;> simp [ReadFrom]
  | integer => cases hread : Text.integer? (Text.trim raw) <;> cases v <;> simp [ReadFrom, hread]
  | float => cases hread : Binary64.ofText? (Text.trim raw) <;> cases v <;> simp [ReadFrom, hread]
  | boolean => cases hread : Text.truth? (Text.trim raw) <;> cases v <;> simp [ReadFrom, hread]

theorem kind_of_ofText {kind : ValueKind} {raw : String} {v : Value} (h : ofText kind raw = .ok v) :
    v.kind = kind := by
  cases v <;> exact (ofText_eq_ok.mp h).1.symm

/-- A text can be read as a value of a kind exactly if it is the text of one. -/
theorem exists_ofText {kind : ValueKind} {raw : String} :
    (∃ v, ofText kind raw = .ok v) ↔ Reads kind raw := by
  constructor
  · rintro ⟨v, hv⟩
    have hread := ofText_eq_ok.mp hv
    cases v with
    | string s =>
      obtain ⟨rfl, -⟩ := hread
      trivial
    | integer i =>
      obtain ⟨rfl, hi⟩ := hread
      exact ⟨i, hi⟩
    | float x =>
      obtain ⟨rfl, hx⟩ := hread
      exact ⟨x, hx⟩
    | boolean b =>
      obtain ⟨rfl, hb⟩ := hread
      exact Text.truth?_isSome.mp (Option.isSome_of_eq_some hb)
  · intro h
    cases kind with
    | string => exact ⟨string raw, rfl⟩
    | integer =>
      obtain ⟨i, hi⟩ := h
      exact ⟨integer i, ofText_eq_ok.mpr ⟨rfl, hi⟩⟩
    | float =>
      obtain ⟨x, hx⟩ := h
      exact ⟨float x, ofText_eq_ok.mpr ⟨rfl, hx⟩⟩
    | boolean =>
      obtain ⟨b, hb⟩ := Option.isSome_iff_exists.mp (Text.truth?_isSome.mpr h)
      exact ⟨boolean b, ofText_eq_ok.mpr ⟨rfl, hb⟩⟩

end Value

end Rendezvous
