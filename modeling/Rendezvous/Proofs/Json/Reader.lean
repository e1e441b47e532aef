import Rendezvous.Json.Decoder
import Rendezvous.Proofs.Json.Numeral
/-!
# The reader over written text

What the reader does over the parts of a written value: blanks are passed over, strings and keys are
read as themselves. A number has no end of its own, so where the reader has come to at the end of a
value is given up to the character that follows it (`Json.Machine.Ends`).
-/

namespace Rendezvous.Json

namespace Machine

theorem run_cons (m : Machine) (c : Option Char) (cs : List (Option Char)) :
    m.run (c :: cs) = (m.step c).bind fun m => m.run cs := by
  rw [run]
  cases m.step c <;> rfl

theorem run_append (m : Machine) (cs ds : List (Option Char)) :
    m.run (cs ++ ds) = (m.run cs).bind fun m => m.run ds := by
  induction cs generalizing m with
  | nil => rfl
  | cons c cs ih =>
    rw [List.cons_append, run_cons, run_cons]
    cases m.step c with
    | none => rfl
    | some next => exact ih next

/-- Reads a text none of whose characters is broken. -/
def runText (m : Machine) (cs : List Char) : Option Machine := m.run (cs.map some)

theorem runText_nil (m : Machine) : m.runText [] = some m := rfl

theorem runText_cons (m : Machine) (c : Char) (cs : List Char) :
    m.runText (c :: cs) = (m.step (some c)).bind fun m => m.runText cs :=
  run_cons m (some c) (cs.map some)

theorem runText_append (m : Machine) (cs ds : List Char) :
    m.runText (cs ++ ds) = (m.runText cs).bind fun m => m.runText ds := by
  unfold runText
  rw [List.map_append, run_append]

/-- Whether a character is one of those that follow a value in its written form. -/
def IsFollower (c : Char) : Prop := c = ',' ∨ c = '\n'

/-- Whether the reader, at the end of a value, may be taken for one in another state. -/
def Settles (m m' : Machine) : Prop :=
  (∀ c, IsFollower c → m.step (some c) = m'.step (some c)) ∧
    (m'.frames = [] → m.result? = m'.result?)

theorem Settles.refl (m : Machine) : m.Settles m := ⟨fun _ _ => rfl, fun _ => rfl⟩

/-- Whether the reader has come to the end of a value. -/
def Ends (v : Json) (frames : List Frame) (m : Machine) : Prop := m.Settles (complete v frames)

theorem step_complete (v : Json) (frames : List Frame) (c : Char) :
    (complete v frames).step (some c) = stepPast (complete v frames) c := by
  cases frames with
  | nil => rfl
  | cons frame frames => cases frame <;> rfl

theorem ends_complete (v : Json) (frames : List Frame) : Ends v frames (complete v frames) :=
  Settles.refl _

theorem extend_follower (n : Numeral) (phase : Phase) {c : Char} (h : IsFollower c) :
    n.extend phase c = none := by
  rcases h with rfl | rfl <;> rfl

theorem frames_complete_ne_nil (v : Json) (frame : Frame) (frames : List Frame) :
    (complete v (frame :: frames)).frames ≠ [] := by
  cases frame <;> exact List.cons_ne_nil _ _

theorem ends_number {n : Numeral} {phase : Phase} (h : phase.isEnd = true)
    (frames : List Frame) : Ends n.value frames ⟨frames, .number n phase⟩ := by
  constructor
  · intro c hc
    rw [step_complete]
    simp only [step, extend_follower n phase hc, h, ↓reduceIte]
  · intro hframes
    cases frames with
    | nil =>
      show (if phase.isEnd then some n.value else none) = some n.value
      rw [if_pos h]
    | cons frame frames => exact absurd hframes (frames_complete_ne_nil _ _ _)

/-! ## Blanks -/

theorem runText_blanks {m : Machine} (stays : ∀ c, isBlank c = true → m.step (some c) = some m)
    {cs : List Char} (blank : ∀ c ∈ cs, isBlank c = true) : m.runText cs = some m := by
  induction cs with
  | nil => rfl
  | cons c cs ih =>
    rw [runText_cons, stays c (blank c (List.mem_cons_self ..))]
    exact ih fun c hc => blank c (List.mem_cons_of_mem _ hc)

theorem isBlank_of_mem_indent {level : Nat} {c : Char} (h : c ∈ List.replicate (2 * level) ' ') :
    isBlank c = true := by
  rw [List.eq_of_mem_replicate h]
  rfl

theorem isBlank_of_mem_newline {level : Nat} {c : Char} (h : c ∈ newline level) :
    isBlank c = true := by
  rcases List.mem_cons.mp h with rfl | h
  · rfl
  · exact isBlank_of_mem_indent h

theorem step_value_blank (frames : List Frame) (closable : Bool) {c : Char}
    (h : isBlank c = true) :
    step ⟨frames, .value closable⟩ (some c) = some ⟨frames, .value closable⟩ := by
  simp only [step, h, ↓reduceIte]

theorem step_key_blank (frames : List Frame) (closable : Bool) {c : Char} (h : isBlank c = true) :
    step ⟨frames, .key closable⟩ (some c) = some ⟨frames, .key closable⟩ := by
  simp only [step, h, ↓reduceIte]

theorem step_after_blank (frames : List Frame) {c : Char} (h : isBlank c = true) :
    step ⟨frames, .after⟩ (some c) = some ⟨frames, .after⟩ := by
  simp only [step, stepPast, stepAfter, h, ↓reduceIte]

theorem runText_value_newline (frames : List Frame) (closable : Bool) (level : Nat) :
    runText ⟨frames, .value closable⟩ (newline level) = some ⟨frames, .value closable⟩ :=
  runText_blanks (fun _ h => step_value_blank frames closable h) fun _ h => isBlank_of_mem_newline h

theorem runText_key_newline (frames : List Frame) (closable : Bool) (level : Nat) :
    runText ⟨frames, .key closable⟩ (newline level) = some ⟨frames, .key closable⟩ :=
  runText_blanks (fun _ h => step_key_blank frames closable h) fun _ h => isBlank_of_mem_newline h

/-- A new line shows that a value has ended. -/
theorem runText_settled_newline {m : Machine} {frames : List Frame}
    (h : m.Settles ⟨frames, .after⟩) (level : Nat) :
    m.runText (newline level) = some ⟨frames, .after⟩ := by
  unfold newline
  rw [runText_cons, h.1 '\n' (.inr rfl), step_after_blank frames rfl]
  exact runText_blanks (fun _ h => step_after_blank frames h) fun _ h => isBlank_of_mem_indent h

/-- What starts a value, unless it closes an array. -/
theorem step_value (frames : List Frame) (closable : Bool) {c : Char} (hblank : isBlank c = false)
    (hclose : c ≠ ']') : step ⟨frames, .value closable⟩ (some c) = stepValue frames c := by
  simp only [step, hblank, Bool.false_eq_true, ↓reduceIte]
  split
  · rw [if_neg hclose]
  · rfl

/-! ## Strings -/

/-- A string of which some characters are read, the last one first. -/
def partQuote (isKey : Bool) (chars : List Char) : Quote := ⟨isKey, chars, true, none, .outside⟩

theorem hexValue?_digitChar : ∀ n < 16, Text.hexValue? n.digitChar = some n := by decide

theorem pushCode_partQuote (isKey : Bool) (chars : List Char) (escape : Escape) {c : Char}
    (h : c.toNat < 0x20) :
    Quote.pushCode { partQuote isKey chars with escape } c.toNat =
      partQuote isKey (c :: chars) := by
  unfold Quote.pushCode
  rw [if_neg (by omega), if_neg (by omega), Char.ofNat_toNat]
  rfl

/-- A control character is written by its code in four digits. -/
theorem runText_code (frames : List Frame) (isKey : Bool) (chars : List Char) {c : Char}
    (h : c.toNat < 0x20) :
    runText ⟨frames, .quote (partQuote isKey chars)⟩
        ['\\', 'u', '0', '0', Nat.digitChar (c.toNat / 16), Nat.digitChar (c.toNat % 16)] =
      some ⟨frames, .quote (partQuote isKey (c :: chars))⟩ := by
  let within (escape : Escape) : Machine := ⟨frames, .quote { partQuote isKey chars with escape }⟩
  have hhigh := hexValue?_digitChar (c.toNat / 16) (by omega)
  have hlow := hexValue?_digitChar (c.toNat % 16) (by omega)
  have hbegin : runText (within .outside) ['\\', 'u', '0', '0'] = some (within (.code 2 0)) := rfl
  have hthird : (within (.code 2 0)).step (some (Nat.digitChar (c.toNat / 16))) =
      some (within (.code 3 (c.toNat / 16))) := by
    simp only [within, step, stepQuote, hhigh]
    simp
  have hcode : c.toNat / 16 * 16 + c.toNat % 16 = c.toNat := by omega
  have hfourth : (within (.code 3 (c.toNat / 16))).step (some (Nat.digitChar (c.toNat % 16))) =
      some ⟨frames, .quote (partQuote isKey (c :: chars))⟩ := by
    simp only [within, step, stepQuote, hlow, ↓reduceIte, hcode]
    rw [pushCode_partQuote isKey chars _ h]
  have hsplit : ['\\', 'u', '0', '0', Nat.digitChar (c.toNat / 16), Nat.digitChar (c.toNat % 16)] =
      ['\\', 'u', '0', '0'] ++
        [Nat.digitChar (c.toNat / 16), Nat.digitChar (c.toNat % 16)] := rfl
  have hstart : (⟨frames, .quote (partQuote isKey chars)⟩ : Machine) = within .outside := rfl
  rw [hsplit, hstart, runText_append, hbegin, Option.bind_some, runText_cons, hthird,
    Option.bind_some, runText_cons, hfourth]
  rfl

theorem runText_escape (frames : List Frame) (isKey : Bool) (chars : List Char) (c : Char) :
    runText ⟨frames, .quote (partQuote isKey chars)⟩ (escape c) =
      some ⟨frames, .quote (partQuote isKey (c :: chars))⟩ := by
  unfold escape
  split
  · next h => rw [h]; rfl
  split
  · next h => rw [h]; rfl
  split
  · next h => rw [h]; rfl
  split
  · next h => rw [h]; rfl
  split
  · next h => rw [h]; rfl
  split
  · next h => rw [h]; rfl
  split
  · next h => rw [h]; rfl
  split
  · next hcontrol => exact runText_code frames isKey chars hcontrol
  · next hquote hbackslash _ _ _ _ _ hcontrol =>
    simp only [runText_cons, runText_nil, step, stepQuote, partQuote, if_neg hquote,
      if_neg hbackslash, if_neg hcontrol]
    rfl

theorem runText_escapes (frames : List Frame) (isKey : Bool) (chars cs : List Char) :
    runText ⟨frames, .quote (partQuote isKey chars)⟩ (cs.flatMap escape) =
      some ⟨frames, .quote (partQuote isKey (cs.reverse ++ chars))⟩ := by
  induction cs generalizing chars with
  | nil => rfl
  | cons c cs ih =>
    rw [List.flatMap_cons, runText_append, runText_escape, Option.bind_some, ih]
    simp

/-- A text up to its closing mark. -/
theorem runText_quote (frames : List Frame) (isKey : Bool) (s : String) :
    runText ⟨frames, opening isKey⟩ (s.toList.flatMap escape ++ ['"']) =
      closeQuote (partQuote isKey s.toList.reverse) frames := by
  have hstart : (⟨frames, opening isKey⟩ : Machine) = ⟨frames, .quote (partQuote isKey [])⟩ := rfl
  rw [hstart, runText_append, runText_escapes, Option.bind_some, List.append_nil, runText_cons]
  have hclose : step ⟨frames, .quote (partQuote isKey s.toList.reverse)⟩ (some '"') =
      closeQuote (partQuote isKey s.toList.reverse) frames := by
    simp only [step, stepQuote, partQuote, ↓reduceIte]
  rw [hclose]
  cases closeQuote (partQuote isKey s.toList.reverse) frames <;> rfl

/-- A written string is read as itself. -/
theorem runText_string (frames : List Frame) (closable : Bool) (s : String) :
    runText ⟨frames, .value closable⟩ (quoted s) = some (complete (.string s) frames) := by
  unfold quoted
  rw [runText_cons, step_value frames closable (by decide) (by decide)]
  have hopen : stepValue frames '"' = some ⟨frames, opening false⟩ := rfl
  rw [hopen, Option.bind_some, runText_quote]
  simp [closeQuote, partQuote]

/-- A written key is read as itself. -/
theorem runText_key (members : List (Option String × Json)) (outer : List Frame) (closable : Bool)
    (s : String) :
    runText ⟨.object members :: outer, .key closable⟩ (quoted s) =
      some ⟨.member members (some s) :: outer, .colon⟩ := by
  unfold quoted
  rw [runText_cons]
  have hopen : step ⟨.object members :: outer, .key closable⟩ (some '"') =
      some ⟨.object members :: outer, opening true⟩ := rfl
  rw [hopen, Option.bind_some, runText_quote]
  simp [closeQuote, partQuote]

end Machine

end Rendezvous.Json
