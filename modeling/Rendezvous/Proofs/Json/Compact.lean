import Rendezvous.Proofs.Json.Written
/-!
# Values in one line

What the reader makes of a value that is written in one line (`Json.Kept`). It is enough to know it
of strings, and of arrays and objects of what is known; these have ends of their own, so the reader
has come to the end of the value with its last character, whatever follows. A number has none, so
one that is the only member of an object is read together with the brace after it
(`Json.read_compact_number`).
-/

namespace Rendezvous.Json

open Machine

mutual

/-- How many arrays and objects are open at once in a value. -/
def depth : Json → Nat
  | array items => depthOfItems items + 1
  | object members => depthOfMembers members + 1
  | _ => 0

/-- How many are open at once in items. -/
def depthOfItems : List Json → Nat
  | [] => 0
  | item :: items => max (depth item) (depthOfItems items)

/-- How many are open at once in members. -/
def depthOfMembers : List (String × Json) → Nat
  | [] => 0
  | (_, value) :: members => max (depth value) (depthOfMembers members)

end

/-- Whether a value, written in one line, has no control characters and is read as it is. -/
structure Kept (j : Json) : Prop where
  printable : ∀ c ∈ compact j, 0x20 ≤ c.toNat
  reads : ∀ (frames : List Frame) (closable : Bool),
    runText ⟨frames, .value closable⟩ (compact j) = some (complete j frames)

/-- What is read of a whole line. -/
theorem Kept.read {j : Json} (h : j.Kept) : Json.read (j.compact.map some) = some j := by
  have hrun : Machine.start.run (j.compact.map some) = some (complete j []) := h.reads [] false
  unfold Json.read
  rw [hrun]
  rfl

/-! ## Characters -/

theorem digitChar_printable : ∀ n < 16, 0x20 ≤ (Nat.digitChar n).toNat := by decide

/-- A character is escaped if it is a control character. -/
theorem escape_printable (c : Char) : ∀ d ∈ escape c, 0x20 ≤ d.toNat := by
  unfold escape
  split
  · simp
  split
  · simp
  split
  · simp
  split
  · simp
  split
  · simp
  split
  · simp
  split
  · simp
  split
  · next hcontrol =>
    intro d hd
    simp only [List.mem_cons, List.not_mem_nil, or_false] at hd
    rcases hd with rfl | rfl | rfl | rfl | rfl | rfl
    · decide
    · decide
    · decide
    · decide
    · exact digitChar_printable _ (by omega)
    · exact digitChar_printable _ (by omega)
  · next hcontrol =>
    intro d hd
    rw [List.mem_singleton.mp hd]
    omega

theorem quoted_printable (s : String) : ∀ c ∈ quoted s, 0x20 ≤ c.toNat := by
  intro c hc
  rcases List.mem_cons.mp hc with rfl | hc
  · decide
  · rcases List.mem_append.mp hc with hc | hc
    · obtain ⟨d, -, hd⟩ := List.mem_flatMap.mp hc
      exact escape_printable d c hd
    · rw [List.mem_singleton.mp hc]
      decide

/-! ## Values -/

theorem kept_string (s : String) : Kept (.string s) :=
  ⟨quoted_printable s, fun frames closable => runText_string frames closable s⟩

theorem compactItems_printable {items : List Json} (h : ∀ item ∈ items, item.Kept) :
    ∀ c ∈ compactItems items, 0x20 ≤ c.toNat := by
  induction items with
  | nil => simp [compactItems]
  | cons item items ih =>
    have hitem := (h item List.mem_cons_self).printable
    have hitems := ih fun item hmem => h item (List.mem_cons_of_mem _ hmem)
    cases items with
    | nil => exact hitem
    | cons next items =>
      intro c hc
      rcases List.mem_append.mp hc with hc | hc
      · exact hitem c hc
      · rcases List.mem_cons.mp hc with rfl | hc
        · decide
        · exact hitems c hc

/-- The items of an array from any one on. -/
theorem runText_compactItems (outer : List Frame) {items : List Json}
    (h : ∀ item ∈ items, item.Kept) (hne : items ≠ []) (done : List Json) (closable : Bool) :
    runText ⟨.array done :: outer, .value closable⟩ (compactItems items) =
      some ⟨.array (items.reverse ++ done) :: outer, .after⟩ := by
  induction items generalizing done closable with
  | nil => exact absurd rfl hne
  | cons item items ih =>
    have hitem := (h item List.mem_cons_self).reads (.array done :: outer) closable
    have hcomplete : complete item (.array done :: outer) =
        ⟨.array (item :: done) :: outer, .after⟩ := rfl
    rw [hcomplete] at hitem
    cases items with
    | nil => exact hitem
    | cons next items =>
      have hitems := ih (fun item hmem => h item (List.mem_cons_of_mem _ hmem))
        (List.cons_ne_nil _ _) (item :: done) false
      have hcomma : step ⟨.array (item :: done) :: outer, .after⟩ (some ',') =
          some ⟨.array (item :: done) :: outer, .value false⟩ := rfl
      show runText _ (compact item ++ ',' :: compactItems (next :: items)) = _
      rw [runText_append, hitem, Option.bind_some, runText_cons, hcomma, Option.bind_some, hitems]
      simp

theorem kept_array {items : List Json} (h : ∀ item ∈ items, item.Kept) : Kept (.array items) := by
  constructor
  · intro c hc
    rcases List.mem_cons.mp hc with rfl | hc
    · decide
    · rcases List.mem_append.mp hc with hc | hc
      · exact compactItems_printable h c hc
      · rw [List.mem_singleton.mp hc]
        decide
  · intro frames closable
    have hopen : step ⟨frames, .value closable⟩ (some '[') =
        some ⟨.array [] :: frames, .value true⟩ :=
      step_value frames closable (by decide) (by decide)
    show runText _ ('[' :: (compactItems items ++ [']'])) = _
    rw [runText_cons, hopen, Option.bind_some]
    cases items with
    | nil => rfl
    | cons item items =>
      rw [runText_append, runText_compactItems frames h (List.cons_ne_nil _ _) [] true,
        Option.bind_some]
      show some (complete (.array ((item :: items).reverse ++ []).reverse) frames) = _
      rw [List.append_nil, List.reverse_reverse]

theorem compactMembers_printable {members : List (String × Json)}
    (h : ∀ m ∈ members, m.2.Kept) : ∀ c ∈ compactMembers members, 0x20 ≤ c.toNat := by
  induction members with
  | nil => simp [compactMembers]
  | cons m members ih =>
    obtain ⟨key, value⟩ := m
    have hvalue : ∀ c ∈ compact value, 0x20 ≤ c.toNat :=
      (h (key, value) List.mem_cons_self).printable
    have hmembers := ih fun m hmem => h m (List.mem_cons_of_mem _ hmem)
    intro c hc
    cases members with
    | nil =>
      rcases List.mem_append.mp hc with hc | hc
      · exact quoted_printable key c hc
      · rcases List.mem_cons.mp hc with rfl | hc
        · decide
        · exact hvalue c hc
    | cons next members =>
      rcases List.mem_append.mp hc with hc | hc
      · exact quoted_printable key c hc
      · rcases List.mem_cons.mp hc with rfl | hc
        · decide
        · rcases List.mem_append.mp hc with hc | hc
          · exact hvalue c hc
          · rcases List.mem_cons.mp hc with rfl | hc
            · decide
            · exact hmembers c hc

/-- The members of an object from any one on. -/
theorem runText_compactMembers (outer : List Frame) {members : List (String × Json)}
    (h : ∀ m ∈ members, m.2.Kept) (hne : members ≠ []) (done : List (Option String × Json))
    (closable : Bool) :
    runText ⟨.object done :: outer, .key closable⟩ (compactMembers members) =
      some ⟨.object ((members.map fun m => (some m.1, m.2)).reverse ++ done) :: outer,
        .after⟩ := by
  induction members generalizing done closable with
  | nil => exact absurd rfl hne
  | cons m members ih =>
    obtain ⟨key, value⟩ := m
    have hvalue := (h (key, value) List.mem_cons_self).reads (.member done (some key) :: outer) false
    have hcomplete : complete value (.member done (some key) :: outer) =
        ⟨.object ((some key, value) :: done) :: outer, .after⟩ := rfl
    rw [hcomplete] at hvalue
    have hcolon : step ⟨.member done (some key) :: outer, .colon⟩ (some ':') =
        some ⟨.member done (some key) :: outer, .value false⟩ := rfl
    cases members with
    | nil =>
      show runText _ (quoted key ++ ':' :: compact value) = _
      rw [runText_append, runText_key, Option.bind_some, runText_cons, hcolon, Option.bind_some]
      exact hvalue
    | cons next members =>
      have hmembers := ih (fun m hmem => h m (List.mem_cons_of_mem _ hmem))
        (List.cons_ne_nil _ _) ((some key, value) :: done) false
      have hcomma : step ⟨.object ((some key, value) :: done) :: outer, .after⟩ (some ',') =
          some ⟨.object ((some key, value) :: done) :: outer, .key false⟩ := rfl
      show runText _ (quoted key ++ ':' :: (compact value ++ ',' ::
        compactMembers (next :: members))) = _
      rw [runText_append, runText_key, Option.bind_some, runText_cons, hcolon, Option.bind_some,
        runText_append, hvalue, Option.bind_some, runText_cons, hcomma, Option.bind_some, hmembers]
      simp

theorem kept_object {members : List (String × Json)} (h : ∀ m ∈ members, m.2.Kept) :
    Kept (.object members) := by
  constructor
  · intro c hc
    rcases List.mem_cons.mp hc with rfl | hc
    · decide
    · rcases List.mem_append.mp hc with hc | hc
      · exact compactMembers_printable h c hc
      · rw [List.mem_singleton.mp hc]
        decide
  · intro frames closable
    have hopen : step ⟨frames, .value closable⟩ (some '\x7b') =
        some ⟨.object [] :: frames, .key true⟩ :=
      step_value frames closable (by decide) (by decide)
    show runText _ ('\x7b' :: (compactMembers members ++ ['\x7d'])) = _
    rw [runText_cons, hopen, Option.bind_some]
    cases members with
    | nil => rfl
    | cons m members =>
      rw [runText_append, runText_compactMembers frames h (List.cons_ne_nil _ _) [] true,
        Option.bind_some]
      show some (complete (objectOf
        (((m :: members).map fun m => (some m.1, m.2)).reverse ++ [])) frames) = _
      rw [List.append_nil, objectOf_reverse]

/-- An object with an integer that fits for its only member is read as it is. -/
theorem read_compact_number (key : String) {i : Int} (h : FitsWord i) :
    Json.read ((compact (.object [(key, .integer i)])).map some) =
      some (.object [(key, .integer i)]) := by
  obtain ⟨n, phase, hscan, hend, hvalue⟩ := Numeral.scan_ofInt h
  have hopen : step start (some '\x7b') = some ⟨[.object []], .key true⟩ := rfl
  have hcolon : step ⟨[.member [] (some key)], .colon⟩ (some ':') =
      some ⟨[.member [] (some key)], .value false⟩ := rfl
  have hnumber : runText ⟨[.member [] (some key)], .value false⟩ (Text.ofInt i).toList =
      some ⟨[.member [] (some key)], .number n phase⟩ :=
    runText_of_scanAll _ _ (fun _ hc => isNumeric_of_mem_ofInt hc) hscan
  have hclose : step ⟨[.member [] (some key)], .number n phase⟩ (some '\x7d') =
      some ⟨[], .finished (.object [(key, n.value)])⟩ := by
    have hextend : n.extend phase '\x7d' = none := rfl
    simp only [step, hextend, hend, ↓reduceIte]
    rfl
  have hrun : runText start (compact (.object [(key, .integer i)])) =
      some ⟨[], .finished (.object [(key, n.value)])⟩ := by
    show runText start ('\x7b' :: (quoted key ++ ':' :: (Text.ofInt i).toList ++ ['\x7d'])) = _
    rw [runText_cons, hopen, Option.bind_some, runText_append, runText_append, runText_key,
      Option.bind_some, runText_cons, hcolon, Option.bind_some, hnumber, Option.bind_some,
      runText_cons, hclose]
    rfl
  have hread : Json.read ((compact (.object [(key, .integer i)])).map some) =
      some (.object [(key, n.value)]) := by
    show (runText start (compact (.object [(key, .integer i)]))).bind result? = _
    rw [hrun]
    rfl
  rwa [hvalue] at hread

end Rendezvous.Json
