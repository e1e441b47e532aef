import Mathlib.Data.List.Forall2
import Rendezvous.Proofs.Json.Reader
/-!
# Values that are written and read again

`Json.Reads j v` says that the reader makes `v` of the written form of `j`, at any level and in any
frame. It holds of texts, truth values and integers that fit as they are; a number that is not
finite is read as `null`, and of a finite one it depends on the number (`Binary64.Durable`). Arrays
and objects are read part by part (`Json.Reads.array`, `Json.Reads.object`), so the leaves decide
about a whole tree.
-/

namespace Rendezvous

/-- Whether the written form of a double is read as the same double. -/
def Binary64.Durable (x : Binary64) : Prop :=
  Json.ofText? (String.ofList (x.text Json.numberLayout)) = some (.real x)

/-- The double that a JSON value is. -/
def Json.real? : Json → Option Binary64
  | .real x => some x
  | _ => none

theorem Binary64.durable_iff (x : Binary64) :
    x.Durable ↔
      (Json.ofText? (String.ofList (x.text Json.numberLayout))).bind Json.real? = some x := by
  unfold Durable
  constructor
  · intro h
    rw [h]
    rfl
  · intro h
    obtain ⟨j, hj, hreal⟩ := Option.bind_eq_some_iff.mp h
    cases j with
    | real y =>
      cases hreal
      exact hj
    | _ => cases hreal

instance : DecidablePred Binary64.Durable := fun x => decidable_of_iff _ x.durable_iff.symm

namespace Json

open Machine

/-- Whether the reader makes `v` of the written form of `j`. -/
def Reads (j v : Json) : Prop :=
  ∀ (level : Nat) (frames : List Frame) (closable : Bool), ∃ m,
    runText ⟨frames, .value closable⟩ (prettyAt level j) = some m ∧ Ends v frames m

/-- What is read of a whole text. -/
theorem Reads.ofText? {j v : Json} (h : Reads j v) :
    Json.ofText? (String.ofList (pretty j)) = some v := by
  obtain ⟨m, hrun, hend⟩ := h 0 [] false
  unfold Json.ofText? read
  rw [String.toList_ofList]
  have hstart : Machine.start.run ((pretty j).map some) = some m := hrun
  rw [hstart]
  exact hend.2 rfl

/-! ## Leaves -/

theorem reads_string (s : String) : Reads (.string s) (.string s) := fun _ frames closable =>
  ⟨_, runText_string frames closable s, ends_complete _ _⟩

theorem reads_null : Reads .null .null := by
  intro level frames closable
  refine ⟨complete .null frames, ?_, ends_complete _ _⟩
  show runText ⟨frames, .value closable⟩ ['n', 'u', 'l', 'l'] = _
  rw [runText_cons, step_value frames closable (by decide) (by decide)]
  rfl

theorem reads_bool (b : Bool) : Reads (.bool b) (.bool b) := by
  intro level frames closable
  refine ⟨complete (.bool b) frames, ?_, ends_complete _ _⟩
  cases b with
  | true =>
    show runText ⟨frames, .value closable⟩ ['t', 'r', 'u', 'e'] = _
    rw [runText_cons, step_value frames closable (by decide) (by decide)]
    rfl
  | false =>
    show runText ⟨frames, .value closable⟩ ['f', 'a', 'l', 's', 'e'] = _
    rw [runText_cons, step_value frames closable (by decide) (by decide)]
    rfl

theorem reads_unfinite {x : Binary64} (h : x.isFinite = false) : Reads (.real x) .null := by
  intro level frames closable
  have htext : prettyAt level (.real x) = prettyAt level .null := by
    simp only [prettyAt, scalarText, h, Bool.false_eq_true, ↓reduceIte]
  rw [htext]
  exact reads_null level frames closable

/-- The characters of numbers. -/
def IsNumeric (c : Char) : Prop := c.isDigit = true ∨ c = '-' ∨ c = '+' ∨ c = '.' ∨ c = 'e'

theorem not_isBlank_of_isNumeric {c : Char} (h : IsNumeric c) : isBlank c = false := by
  rcases h with h | rfl | rfl | rfl | rfl
  · cases hblank : isBlank c with
    | false => rfl
    | true =>
      have hcases : c = ' ' ∨ c = '\n' ∨ c = '\t' ∨ c = '\r' := by simpa [isBlank] using hblank
      rcases hcases with rfl | rfl | rfl | rfl <;> exact absurd h (by decide)
  all_goals rfl

/-- The first character of a number. -/
theorem stepValue_number (frames : List Frame) {c : Char} (h : IsNumeric c) :
    stepValue frames c = (Numeral.begin? c).map fun r => ⟨frames, .number r.1 r.2⟩ := by
  have hne : ∀ d, IsNumeric d → d ≠ '\x7b' ∧ d ≠ '[' ∧ d ≠ '"' ∧ d ≠ 't' ∧ d ≠ 'f' ∧ d ≠ 'n' := by
    intro d hd
    refine ⟨?_, ?_, ?_, ?_, ?_, ?_⟩ <;> rintro rfl <;> revert hd <;> unfold IsNumeric <;> decide
  obtain ⟨h1, h2, h3, h4, h5, h6⟩ := hne c h
  unfold stepValue Numeral.begin?
  rw [if_neg h1, if_neg h2, if_neg h3, if_neg h4, if_neg h5, if_neg h6]
  split <;> rfl

/-- Where a value may stand, the first character of a number begins one. -/
theorem runText_numeric (frames : List Frame) (closable : Bool) {c : Char} (h : IsNumeric c)
    (cs : List Char) :
    runText ⟨frames, .value closable⟩ (c :: cs) =
      (Numeral.begin? c).bind fun r => runText ⟨frames, .number r.1 r.2⟩ cs := by
  have hclose : c ≠ ']' := by
    rintro rfl
    revert h
    unfold IsNumeric
    decide
  rw [runText_cons, step_value frames closable (not_isBlank_of_isNumeric h) hclose,
    stepValue_number frames h]
  cases Numeral.begin? c <;> rfl

/-- The characters of a number after its first one, in any frame. -/
theorem runText_number (frames : List Frame) {r r' : Numeral × Phase} {cs : List Char}
    (h : Numeral.scan r cs = some r') :
    runText ⟨frames, .number r.1 r.2⟩ cs = some ⟨frames, .number r'.1 r'.2⟩ := by
  induction cs generalizing r with
  | nil =>
    cases h
    rfl
  | cons c cs ih =>
    rw [Numeral.scan_cons] at h
    cases hextend : r.1.extend r.2 c with
    | none =>
      rw [hextend] at h
      cases h
    | some next =>
      rw [hextend] at h
      rw [runText_cons]
      simp only [step, hextend, Option.bind_some]
      exact ih h

/-- The characters of a number are read in any frame as they are read by themselves. -/
theorem runText_of_scanAll (frames : List Frame) (closable : Bool) {cs : List Char} {n : Numeral}
    {phase : Phase} (numeric : ∀ c ∈ cs, IsNumeric c)
    (hscan : Numeral.scanAll cs = some (n, phase)) :
    runText ⟨frames, .value closable⟩ cs = some ⟨frames, .number n phase⟩ := by
  cases cs with
  | nil => cases hscan
  | cons c cs =>
    obtain ⟨r, hbegin, hrest⟩ := Option.bind_eq_some_iff.mp hscan
    rw [runText_numeric frames closable (numeric c (List.mem_cons_self ..)), hbegin]
    exact runText_number frames hrest

/-- A number is read in any frame as it is read by itself. -/
theorem reads_of_scanAll {j v : Json} {n : Numeral} {phase : Phase}
    (numeric : ∀ c ∈ scalarText j, IsNumeric c)
    (flat : ∀ level, prettyAt level j = scalarText j)
    (hscan : Numeral.scanAll (scalarText j) = some (n, phase)) (hend : phase.isEnd = true)
    (hvalue : n.value = v) : Reads j v := by
  intro level frames closable
  rw [flat, ← hvalue]
  exact ⟨_, runText_of_scanAll frames closable numeric hscan, ends_number hend frames⟩

theorem isNumeric_of_mem_ofInt {i : Int} {c : Char} (h : c ∈ (Text.ofInt i).toList) :
    IsNumeric c := by
  unfold Text.ofInt at h
  split at h
  · rw [String.toList_ofList] at h
    rcases List.mem_cons.mp h with rfl | h
    · exact .inr (.inl rfl)
    · exact .inl (Text.isDigit_of_mem_ofNat h)
  · exact .inl (Text.isDigit_of_mem_ofNat h)

theorem reads_integer {i : Int} (h : FitsWord i) : Reads (.integer i) (.integer i) := by
  obtain ⟨n, phase, hscan, hend, hvalue⟩ := Numeral.scan_ofInt h
  exact reads_of_scanAll (fun _ hc => isNumeric_of_mem_ofInt hc) (fun _ => rfl) hscan hend hvalue

/-! ## Finite numbers -/

theorem isNumeric_of_mem_ofNat {n : Nat} {c : Char} (h : c ∈ (Text.ofNat n).toList) :
    IsNumeric c :=
  .inl (Text.isDigit_of_mem_ofNat h)

theorem isNumeric_of_mem_zeros {count : Nat} {c : Char} (h : c ∈ List.replicate count '0') :
    IsNumeric c := by
  rw [List.eq_of_mem_replicate h]
  exact .inl rfl

theorem isNumeric_of_mem_positionalText {digits : List Char} {k : Int} {c : Char}
    (hdigits : ∀ c ∈ digits, IsNumeric c)
    (h : c ∈ Binary64.positionalText numberLayout digits k) : IsNumeric c := by
  have hsuffix : ∀ c ∈ numberLayout.wholeSuffix.toList, IsNumeric c := by
    intro c hc
    have hc' : c = '.' ∨ c = '0' := by simpa [numberLayout] using hc
    rcases hc' with rfl | rfl
    · exact .inr (.inr (.inr (.inl rfl)))
    · exact .inl rfl
  unfold Binary64.positionalText at h
  split at h
  · rcases List.mem_append.mp h with h | h
    · rcases List.mem_append.mp h with h | h
      · exact hdigits c h
      · exact isNumeric_of_mem_zeros h
    · exact hsuffix c h
  · simp only at h
    split at h
    · rcases List.mem_append.mp h with h | h
      · exact hdigits c (List.mem_of_mem_take h)
      · rcases List.mem_cons.mp h with rfl | h
        · exact .inr (.inr (.inr (.inl rfl)))
        · exact hdigits c (List.mem_of_mem_drop h)
    · rcases List.mem_cons.mp h with rfl | h
      · exact .inl rfl
      · rcases List.mem_cons.mp h with rfl | h
        · exact .inr (.inr (.inr (.inl rfl)))
        · rcases List.mem_append.mp h with h | h
          · exact isNumeric_of_mem_zeros h
          · exact hdigits c h

theorem isNumeric_of_mem_exponentText {digits : List Char} {k : Int} {c : Char}
    (hdigits : ∀ c ∈ digits, IsNumeric c) (h : c ∈ Binary64.exponentText digits k) :
    IsNumeric c := by
  unfold Binary64.exponentText at h
  simp only at h
  rcases List.mem_append.mp h with h | h
  · -- The digits with a point after the first one.
    rcases digits with - | ⟨d, - | ⟨d', ds⟩⟩
    · cases h
    · exact hdigits c h
    · rcases List.mem_cons.mp h with rfl | h
      · exact hdigits c (List.mem_cons_self ..)
      · rcases List.mem_cons.mp h with rfl | h
        · exact .inr (.inr (.inr (.inl rfl)))
        · exact hdigits c (List.mem_cons_of_mem _ h)
  · rcases List.mem_cons.mp h with rfl | h
    · exact .inr (.inr (.inr (.inr rfl)))
    · split at h
      · rcases List.mem_cons.mp h with rfl | h
        · exact .inr (.inr (.inl rfl))
        · exact isNumeric_of_mem_ofInt h
      · exact isNumeric_of_mem_ofInt h

theorem isNumeric_of_mem_text {x : Binary64} (hfinite : x.isFinite = true) {c : Char}
    (h : c ∈ x.text numberLayout) : IsNumeric c := by
  cases x with
  | nan => cases hfinite
  | number negative rank =>
    have hrank : rank.val ≠ Binary64.infinityRank := by
      have hlt : rank.val < Binary64.infinityRank := by simpa [Binary64.isFinite] using hfinite
      omega
    have hmagnitude : ∀ c ∈ Binary64.magnitudeText numberLayout rank.val, IsNumeric c := by
      intro c hc
      unfold Binary64.magnitudeText at hc
      simp only at hc
      split at hc
      · exact isNumeric_of_mem_positionalText (fun _ h => isNumeric_of_mem_ofNat h) hc
      · exact isNumeric_of_mem_exponentText (fun _ h => isNumeric_of_mem_ofNat h) hc
    unfold Binary64.text at h
    simp only [if_neg hrank] at h
    split at h
    · rcases List.mem_cons.mp h with rfl | h
      · exact .inr (.inl rfl)
      · exact hmagnitude c h
    · exact hmagnitude c h

/-- What the reader, outside of all frames, has made of the characters of a number. -/
theorem scan_of_runText {r : Numeral × Phase} {cs : List Char} {m : Machine}
    (numeric : ∀ c ∈ cs, IsNumeric c) (h : runText ⟨[], .number r.1 r.2⟩ cs = some m) :
    ∃ r', Numeral.scan r cs = some r' ∧ m = ⟨[], .number r'.1 r'.2⟩ := by
  induction cs generalizing r with
  | nil =>
    cases h
    exact ⟨r, rfl, rfl⟩
  | cons c cs ih =>
    have hc : isBlank c = false := not_isBlank_of_isNumeric (numeric c (List.mem_cons_self ..))
    rw [runText_cons] at h
    cases hextend : r.1.extend r.2 c with
    | none =>
      -- Only a blank may follow a complete number, and none is among its characters.
      have hstep : step ⟨[], .number r.1 r.2⟩ (some c) = none := by
        simp only [step, hextend]
        split
        · show (if isBlank c then _ else none) = none
          rw [hc]
          rfl
        · rfl
      rw [hstep] at h
      cases h
    | some next =>
      have hstep : step ⟨[], .number r.1 r.2⟩ (some c) = some ⟨[], .number next.1 next.2⟩ := by
        simp only [step, hextend]
      rw [hstep] at h
      obtain ⟨r', hscan, hm⟩ := ih (fun c hc => numeric c (List.mem_cons_of_mem _ hc)) h
      refine ⟨r', ?_, hm⟩
      rw [Numeral.scan_cons, hextend]
      exact hscan

/-- A finite number that is read back by itself is read back everywhere. -/
theorem reads_finite {x : Binary64} (hfinite : x.isFinite = true) (durable : x.Durable) :
    Reads (.real x) (.real x) := by
  have hscalar : scalarText (.real x) = x.text numberLayout := by
    simp only [scalarText, hfinite, ↓reduceIte]
  have numeric : ∀ c ∈ scalarText (.real x), IsNumeric c := by
    rw [hscalar]
    exact fun c hc => isNumeric_of_mem_text hfinite hc
  unfold Binary64.Durable Json.ofText? read at durable
  rw [String.toList_ofList, ← hscalar] at durable
  obtain ⟨m, hrun, hresult⟩ := Option.bind_eq_some_iff.mp durable
  cases htext : scalarText (.real x) with
  | nil =>
    rw [htext] at hrun
    cases hrun
    cases hresult
  | cons c cs =>
    rw [htext] at hrun numeric
    have hc : IsNumeric c := numeric c (List.mem_cons_self ..)
    have hrun' : runText ⟨[], .value false⟩ (c :: cs) = some m := hrun
    rw [runText_numeric [] false hc] at hrun'
    obtain ⟨r, hbegin, hrest⟩ := Option.bind_eq_some_iff.mp hrun'
    obtain ⟨⟨n, phase⟩, hscan, hm⟩ :=
      scan_of_runText (fun c hc => numeric c (List.mem_cons_of_mem _ hc)) hrest
    rw [hm] at hresult
    have hend : phase.isEnd = true ∧ n.value = .real x := by
      simpa [result?] using hresult
    have hall : Numeral.scanAll (scalarText (.real x)) = some (n, phase) := by
      rw [htext]
      show (Numeral.begin? c).bind (fun r => Numeral.scan r cs) = _
      rw [hbegin]
      exact hscan
    rw [← htext] at numeric
    exact reads_of_scanAll numeric (fun _ => rfl) hall hend.1 hend.2

/-! ## Arrays and objects -/

/-- The items of an array from any one on, where the reader comes to the end of the last one. -/
theorem runText_items (level : Nat) (outer : List Frame) {items vs : List Json}
    (h : List.Forall₂ Reads items vs) (hne : items ≠ []) (done : List Json) (closable : Bool) :
    ∃ m, runText ⟨.array done :: outer, .value closable⟩ (prettyItems level items) = some m ∧
      m.Settles ⟨.array (vs.reverse ++ done) :: outer, .after⟩ := by
  induction h generalizing done closable with
  | nil => exact absurd rfl hne
  | @cons item v items vs hitem hitems ih =>
    obtain ⟨m, hrun, hend⟩ := hitem level (.array done :: outer) closable
    have hend' : m.Settles ⟨.array (v :: done) :: outer, .after⟩ := hend
    have hfirst : runText ⟨.array done :: outer, .value closable⟩
        (newline level ++ prettyAt level item) = some m := by
      rw [runText_append, runText_value_newline]
      exact hrun
    cases hitems with
    | nil => exact ⟨m, hfirst, hend'⟩
    | @cons item' v' items vs hitem' hitems =>
      obtain ⟨m', hrest, hsettles⟩ := ih (List.cons_ne_nil _ _) (v :: done) false
      refine ⟨m', ?_, ?_⟩
      · show runText _ (newline level ++ prettyAt level item ++
          ',' :: prettyItems level (item' :: items)) = some m'
        rw [runText_append, hfirst, Option.bind_some, runText_cons, hend'.1 ',' (.inl rfl)]
        exact hrest
      · simpa using hsettles

theorem Reads.array {items vs : List Json} (h : List.Forall₂ Reads items vs) :
    Reads (.array items) (.array vs) := by
  intro level frames closable
  refine ⟨complete (.array vs) frames, ?_, ends_complete _ _⟩
  have hopen : step ⟨frames, .value closable⟩ (some '[') =
      some ⟨.array [] :: frames, .value true⟩ :=
    step_value frames closable (by decide) (by decide)
  cases h with
  | nil =>
    show runText _ ['[', ']'] = _
    rw [runText_cons, hopen]
    rfl
  | @cons item v items vs hitem hitems =>
    obtain ⟨m, hrun, hsettles⟩ := runText_items (level + 1) frames
      (.cons hitem hitems) (List.cons_ne_nil _ _) [] true
    show runText _ ('[' :: (prettyItems (level + 1) (item :: items) ++ newline level ++ [']'])) = _
    rw [runText_cons, hopen, Option.bind_some, runText_append, runText_append, hrun,
      Option.bind_some, runText_settled_newline hsettles, Option.bind_some]
    show some (complete (.array ((v :: vs).reverse ++ []).reverse) frames) = _
    rw [List.append_nil, List.reverse_reverse]

/-- Whether one member is read as another. -/
def ReadsMember (a b : String × Json) : Prop := a.1 = b.1 ∧ Reads a.2 b.2

/-- The members of an object from any one on, where the reader comes to the end of the last one. -/
theorem runText_members (level : Nat) (outer : List Frame) {members vs : List (String × Json)}
    (h : List.Forall₂ ReadsMember members vs) (hne : members ≠ [])
    (done : List (Option String × Json)) (closable : Bool) :
    ∃ m, runText ⟨.object done :: outer, .key closable⟩ (prettyMembers level members) = some m ∧
      m.Settles ⟨.object ((vs.map fun v => (some v.1, v.2)).reverse ++ done) :: outer, .after⟩ := by
  induction h generalizing done closable with
  | nil => exact absurd rfl hne
  | @cons a b members vs hmember hmembers ih =>
    obtain ⟨key, value⟩ := a
    obtain ⟨key', v⟩ := b
    obtain ⟨hkey, hvalue⟩ := hmember
    have hkey' : key = key' := hkey
    subst hkey'
    obtain ⟨m, hrun, hend⟩ := hvalue level (.member done (some key) :: outer) false
    have hend' : m.Settles ⟨.object ((some key, v) :: done) :: outer, .after⟩ := hend
    have hfirst : runText ⟨.object done :: outer, .key closable⟩
        (newline level ++ quoted key ++ ':' :: ' ' :: prettyAt level value) = some m := by
      rw [runText_append, runText_append, runText_key_newline, Option.bind_some, runText_key]
      exact hrun
    cases hmembers with
    | nil => exact ⟨m, hfirst, hend'⟩
    | @cons a' b' members vs hmember' hmembers =>
      obtain ⟨m', hrest, hsettles⟩ := ih (List.cons_ne_nil _ _) ((some key, v) :: done) false
      refine ⟨m', ?_, ?_⟩
      · have hsplit : prettyMembers level ((key, value) :: a' :: members) =
            (newline level ++ quoted key ++ ':' :: ' ' :: prettyAt level value) ++
              ',' :: prettyMembers level (a' :: members) := by
          simp [prettyMembers]
        rw [hsplit, runText_append, hfirst, Option.bind_some, runText_cons,
          hend'.1 ',' (.inl rfl)]
        exact hrest
      · simpa using hsettles

theorem objectOf_reverse (vs : List (String × Json)) :
    objectOf (vs.map fun v => (some v.1, v.2)).reverse = .object vs := by
  have hall : (vs.map fun v => (some v.1, v.2)).mapM
      (fun m : Option String × Json => m.1.map fun key => (key, m.2)) = some vs := by
    induction vs with
    | nil => rfl
    | cons v vs ih =>
      rw [List.map_cons, List.mapM_cons, ih]
      rfl
  unfold objectOf
  rw [List.reverse_reverse, hall]

theorem Reads.object {members vs : List (String × Json)}
    (h : List.Forall₂ ReadsMember members vs) : Reads (.object members) (.object vs) := by
  intro level frames closable
  refine ⟨complete (.object vs) frames, ?_, ends_complete _ _⟩
  have hopen : step ⟨frames, .value closable⟩ (some '\x7b') =
      some ⟨.object [] :: frames, .key true⟩ :=
    step_value frames closable (by decide) (by decide)
  cases h with
  | nil =>
    show runText _ ['\x7b', '\x7d'] = _
    rw [runText_cons, hopen]
    rfl
  | @cons a b members vs hmember hmembers =>
    obtain ⟨m, hrun, hsettles⟩ := runText_members (level + 1) frames
      (.cons hmember hmembers) (List.cons_ne_nil _ _) [] true
    show runText _
      ('\x7b' :: (prettyMembers (level + 1) (a :: members) ++ newline level ++ ['\x7d'])) = _
    rw [runText_cons, hopen, Option.bind_some, runText_append, runText_append, hrun,
      Option.bind_some, runText_settled_newline hsettles, Option.bind_some]
    show some (complete (objectOf
      (((b :: vs).map fun v => (some v.1, v.2)).reverse ++ [])) frames) = _
    rw [List.append_nil, objectOf_reverse]

end Json

end Rendezvous
