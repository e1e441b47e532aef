import Mathlib.Tactic.Tauto
import Rendezvous.Directory.Basic
import Rendezvous.Proofs.Component.Keyed
/-!
# Postings

Under which keys a component is indexed, and who is under a key after a component has come or gone.
Values have different keys on a shelf if they are different (`Value.key_injective`), so a bucket has
those in which its own value is found. A component goes from under exactly the keys under which it
came (`Postings.contains_addAll`, `Postings.contains_removeAll`), and a key under which nobody is
left is no different from one that was never there.
-/

namespace Rendezvous

theorem Binary64.bits_injective {x y : Binary64} (h : x.bits = y.bits) : x = y := by
  have infinite : Binary64.infinityRank = 0x7FF0_0000_0000_0000 := by decide
  cases x with
  | nan =>
    cases y with
    | nan => rfl
    | number negative rank =>
      have bound := rank.isLt
      cases negative
      all_goals
        simp only [Binary64.bits, Bool.false_eq_true, if_true, if_false] at h
        omega
  | number negative rank =>
    have bound := rank.isLt
    cases y with
    | nan =>
      cases negative
      all_goals
        simp only [Binary64.bits, Bool.false_eq_true, if_true, if_false] at h
        omega
    | number negative' rank' =>
      have bound' := rank'.isLt
      cases negative
      all_goals cases negative'
      all_goals simp only [Binary64.bits, Bool.false_eq_true, if_true, if_false] at h
      · rw [Fin.ext (show rank.val = rank'.val by omega)]
      · omega
      · omega
      · rw [Fin.ext (show rank.val = rank'.val by omega)]

/-- Different values have different keys. -/
theorem Value.key_injective {v w : Value} (h : v.key = w.key) : v = w := by
  cases v
  all_goals cases w
  all_goals simp only [Value.key, reduceCtorEq, ValueKey.text.injEq, ValueKey.integer.injEq,
    ValueKey.bits.injEq, ValueKey.truth.injEq] at h
  · rw [h]
  · rw [h]
  · rw [Binary64.bits_injective h]
  · rw [h]

/-! ## One shelf -/

namespace Shelf

theorem get?_put (s : Shelf) (b : Bucket) (filled : b.ids.isEmpty = false) (k : ValueKey) :
    (s.put b filled).buckets.get? k = if k = b.value.key then some b else s.buckets.get? k :=
  Dict.get?_insert s.buckets b.value.key k b

theorem get?_drop (s : Shelf) (k k' : ValueKey) :
    (s.drop k).buckets.get? k' = if k' = k then none else s.buckets.get? k' :=
  Dict.get?_erase s.buckets k k'

/-- What is under the key of a value is a bucket of the value. -/
theorem value_of_get? {s : Shelf} {v : Value} {b : Bucket} (h : s.buckets.get? v.key = some b) :
    b.value = v :=
  Value.key_injective (s.keyed v.key b h)

theorem holders_of_get? {s : Shelf} {k : ValueKey} {b : Bucket} (h : s.buckets.get? k = some b) :
    s.holders b.value = b.ids := by
  rw [holders, s.keyed k b h, h]

theorem holders_of_absent {s : Shelf} {v : Value} (h : s.buckets.get? v.key = none) :
    s.holders v = ∅ := by
  rw [holders, h]

theorem holders_put (s : Shelf) (b : Bucket) (filled : b.ids.isEmpty = false) (v : Value) :
    (s.put b filled).holders v = if v = b.value then b.ids else s.holders v := by
  unfold holders
  rw [get?_put]
  by_cases h : v = b.value
  · rw [h, if_pos rfl, if_pos rfl]
  · rw [if_neg h, if_neg fun hkey => h (Value.key_injective hkey)]

theorem holders_add (id : ComponentId) (s : Shelf) (v v' : Value) :
    (s.add id v).holders v' = if v' = v then (s.holders v).add id else s.holders v' := by
  unfold add
  rw [holders_put]
  cases hget : s.buckets.get? v.key with
  | none =>
    rw [holders_of_absent hget]
    rfl
  | some b =>
    obtain rfl := value_of_get? hget
    rw [holders_of_get? hget]
    rfl

theorem holders_remove (id : ComponentId) (s : Shelf) (v v' : Value) :
    (s.remove id v).holders v' = if v' = v then (s.holders v).erase id else s.holders v' := by
  unfold remove
  split
  · next hget =>
    by_cases h : v' = v
    · rw [if_pos h, h, holders_of_absent hget]
      rfl
    · rw [if_neg h]
  · next b hget =>
    obtain rfl := value_of_get? hget
    rw [holders_of_get? hget]
    split
    · rw [holders_put]
    · next hempty =>
      -- The bucket has gone, so nobody is found under the value.
      have hnone : b.ids.erase id = ∅ := SortedMap.eq_empty_of_isEmpty (by simpa using hempty)
      rw [hnone]
      unfold holders
      rw [get?_drop]
      by_cases h : v' = b.value
      · rw [h, if_pos rfl, if_pos rfl]
      · rw [if_neg h, if_neg fun hkey => h (Value.key_injective hkey)]

theorem remove_empty (id : ComponentId) (v : Value) : (∅ : Shelf).remove id v = ∅ := rfl

theorem eq_empty_of_isEmpty {s : Shelf} (h : s.isEmpty = true) : s = ∅ := by
  obtain ⟨⟨entries, distinct⟩, keyed, filled⟩ := s
  obtain rfl : entries = [] := List.isEmpty_iff.mp h
  rfl

/-- A scan finds those who are in the buckets of values that the comparison admits. -/
theorem contains_matching (s : Shelf) (r : Rule) (id : ComponentId) :
    (s.matching r).contains id = true ↔ ∃ v,
      (s.holders v).contains id = true ∧ r.comparison.evaluate v r.operand = .holds := by
  have step : ∀ (entries : List (ValueKey × Bucket)) (found : SortedSet ComponentId),
      (entries.foldl (fun found e => found.union e.2.ids) found).contains id = true ↔
        found.contains id = true ∨ ∃ e ∈ entries, e.2.ids.contains id = true := by
    intro entries
    induction entries with
    | nil => simp
    | cons e rest ih =>
      intro found
      rw [List.foldl_cons, ih, SortedSet.contains_union, Bool.or_eq_true, or_assoc]
      simp only [List.mem_cons, exists_eq_or_imp]
  rw [matching, step]
  simp only [SortedMap.contains_empty, Bool.false_eq_true, false_or, List.mem_filter,
    decide_eq_true_eq]
  constructor
  · rintro ⟨⟨k, b⟩, ⟨he, hv⟩, hid⟩
    exact ⟨b.value, by rwa [holders_of_get? (Dict.mem_entries.mp he)], hv⟩
  · rintro ⟨v, hid, hv⟩
    cases hget : s.buckets.get? v.key with
    | none => simp [holders_of_absent hget] at hid
    | some b =>
      obtain rfl := value_of_get? hget
      rw [holders_of_get? hget] at hid
      exact ⟨(b.value.key, b), ⟨Dict.mem_entries.mpr hget, hv⟩, hid⟩

end Shelf

namespace Postings

/-! ## The keys of a component -/

/-- Whether a selector finds one value and not a set of names. -/
def isSingle : Selector → Bool
  | .callback | .service => false
  | _ => true

/-- A component is indexed under the values that selectors find in its fields. -/
theorem mem_keysOf_field {c : Component} {s : Selector} (hs : s ∈ fields) {v : Value} :
    (s, v) ∈ keysOf c ↔ s.resolve c = .value v := by
  cases s with
  | «attribute» n => exact absurd hs (by simp [fields])
  | callback => exact absurd hs (by decide)
  | service => exact absurd hs (by decide)
  | _ => simpa [keysOf, fields, Selector.resolve] using eq_comm

/-- A component is indexed under what its attributes call themselves. -/
theorem mem_keysOf_attribute {c : Component} {n : String} {v : Value} :
    (.attribute n, v) ∈ keysOf c ↔ ∃ a ∈ c.resolved, a.value = some v ∧ a.name = n := by
  simp [keysOf, fields, Selector.resolve]

/-- A component is indexed under the names of the callbacks that it offers. -/
theorem mem_keysOf_callback {c : Component} {n : String} :
    (.callback, .string n) ∈ keysOf c ↔ c.callbacks.contains n = true := by
  rw [← SortedMap.mem_keys]
  simp [keysOf, fields, Selector.resolve]

/-- A component is indexed under the names of the services that it offers. -/
theorem mem_keysOf_service {c : Component} {n : String} :
    (.service, .string n) ∈ keysOf c ↔ c.services.contains n = true := by
  rw [← SortedMap.mem_keys]
  simp [keysOf, fields, Selector.resolve]

/-- Whether a component is indexed under a value of which a rule holds. -/
def Lists (r : Rule) (c : Component) : Prop :=
  ∃ v, (r.selector, v) ∈ keysOf c ∧ r.comparison.evaluate v r.operand = .holds

theorem lists_attribute {c : Component} {n : String} {comparison : Comparison} {operand : Value} :
    Lists ⟨.attribute n, comparison, operand⟩ c ↔
      ∃ a ∈ c.resolved, a.name = n ∧ a.Satisfies comparison operand := by
  simp only [Lists, mem_keysOf_attribute, Attribute.Satisfies]
  constructor
  · rintro ⟨v, ⟨a, ha, hvalue, hname⟩, hv⟩
    exact ⟨a, ha, hname, v, hvalue, hv⟩
  · rintro ⟨a, ha, hname, v, hvalue, hv⟩
    exact ⟨v, ⟨a, ha, hvalue, hname⟩, hv⟩

/-- A rule on single values holds of a component exactly if it holds of the value that is found. -/
theorem verdict_single {r : Rule} (hs : isSingle r.selector = true) (c : Component) :
    r.verdict c = .holds ↔
      ∃ v, r.selector.resolve c = .value v ∧ r.comparison.evaluate v r.operand = .holds := by
  unfold Rule.verdict
  cases hres : r.selector.resolve c with
  | value v => simp
  | missing => simp
  | names ns =>
    obtain ⟨s, _, _⟩ := r
    cases s with
    | «attribute» n =>
      simp only [Selector.resolve] at hres
      split at hres <;> cases hres
    | callback => cases hs
    | service => cases hs
    | _ => cases hres

theorem verdict_attribute {c : Component} {n : String} {comparison : Comparison}
    {operand : Value} :
    (⟨.attribute n, comparison, operand⟩ : Rule).verdict c = .holds ↔
      ∃ a, c.attribute? n = some a ∧ a.Satisfies comparison operand := by
  rw [verdict_single rfl]
  simp only [Selector.resolve_attribute_eq_value, Attribute.Satisfies]
  constructor
  · rintro ⟨v, ⟨a, ha, hvalue⟩, hv⟩
    exact ⟨a, ha, v, hvalue, hv⟩
  · rintro ⟨a, ha, v, hvalue, hv⟩
    exact ⟨v, ⟨a, ha, hvalue⟩, hv⟩

/-- For rules on single values the index goes by the descriptions exactly where comparisons cannot
tell the attributes from what stands under their names. -/
theorem faithful_iff {c : Component} :
    c.Faithful ↔ ∀ r : Rule, isSingle r.selector = true → (Lists r c ↔ r.verdict c = .holds) := by
  constructor
  · intro faithful r hs
    obtain ⟨selector, comparison, operand⟩ := r
    by_cases hfield : selector ∈ fields
    · rw [verdict_single hs]
      simp only [Lists, mem_keysOf_field hfield]
    · cases selector with
      | «attribute» n =>
        rw [lists_attribute, verdict_attribute]
        exact faithful n comparison operand
      | callback => cases hs
      | service => cases hs
      | _ => exact absurd (by decide) hfield
  · intro h name comparison operand
    rw [← lists_attribute, ← verdict_attribute]
    exact h ⟨.attribute name, comparison, operand⟩ rfl

/-! ## Who is under a key -/

theorem shelf_empty (s : Selector) : (∅ : Postings).shelf s = ∅ := by
  cases s <;> rfl

theorem holders_empty (key : Selector × Value) : (∅ : Postings).holders key = ∅ := by
  rw [holders, shelf_empty]
  rfl

theorem shelf_add (p : Postings) (id : ComponentId) (key : Selector × Value) (s : Selector) :
    (add id p key).shelf s = if s = key.1 then (p.shelf s).add id key.2 else p.shelf s := by
  obtain ⟨s', v⟩ := key
  cases s' with
  | callback => cases s <;> rfl
  | service => cases s <;> rfl
  | «attribute» n =>
    cases s with
    | «attribute» m =>
      simp only [add, shelf, Dict.get?_insert, Selector.attribute.injEq]
      by_cases h : m = n
      · subst h
        simp
      · simp [h]
    | _ => rfl
  | _ =>
    cases s <;> simp [add, shelf, Dict.get?_insert]

/-- What nobody is left on is no different from what was never there. -/
theorem shelf_remove (p : Postings) (id : ComponentId) (key : Selector × Value) (s : Selector) :
    (remove id p key).shelf s = if s = key.1 then (p.shelf s).remove id key.2 else p.shelf s := by
  obtain ⟨s', v⟩ := key
  cases s' with
  | callback => cases s <;> rfl
  | service => cases s <;> rfl
  | «attribute» n =>
    cases s with
    | «attribute» m =>
      simp only [remove, Selector.attribute.injEq]
      split
      · next hempty =>
        simp only [shelf, Dict.get?_erase]
        by_cases h : m = n
        · subst h
          rw [if_pos rfl, if_pos rfl]
          exact (Shelf.eq_empty_of_isEmpty hempty).symm
        · rw [if_neg h, if_neg h]
      · simp only [shelf, Dict.get?_insert]
        by_cases h : m = n
        · subst h
          simp
        · simp [h]
    | _ =>
      simp only [remove, reduceCtorEq, if_false]
      split <;> rfl
  | _ =>
    simp only [remove]
    split
    · next hget => cases s <;> simp [shelf, hget, Shelf.remove_empty]
    · next hget => cases s <;> simp [shelf, Dict.get?_insert]

theorem holders_add (p : Postings) (id : ComponentId) (key key' : Selector × Value) :
    (add id p key).holders key' =
      if key' = key then (p.holders key).add id else p.holders key' := by
  obtain ⟨s, v⟩ := key
  obtain ⟨s', v'⟩ := key'
  simp only [holders, shelf_add, Prod.mk.injEq]
  by_cases hs : s' = s
  · subst hs
    rw [if_pos rfl, Shelf.holders_add]
    simp
  · simp [hs]

theorem holders_remove (p : Postings) (id : ComponentId) (key key' : Selector × Value) :
    (remove id p key).holders key' =
      if key' = key then (p.holders key).erase id else p.holders key' := by
  obtain ⟨s, v⟩ := key
  obtain ⟨s', v'⟩ := key'
  simp only [holders, shelf_remove, Prod.mk.injEq]
  by_cases hs : s' = s
  · subst hs
    rw [if_pos rfl, Shelf.holders_remove]
    simp
  · simp [hs]

theorem contains_addAll (p : Postings) (c : Component) (key : Selector × Value)
    (id : ComponentId) :
    ((p.addAll c).holders key).contains id = true ↔
      (id = c.id ∧ key ∈ keysOf c) ∨ (p.holders key).contains id = true := by
  have step : ∀ (keys : List (Selector × Value)) (p : Postings),
      ((keys.foldl (add c.id) p).holders key).contains id = true ↔
        (id = c.id ∧ key ∈ keys) ∨ (p.holders key).contains id = true := by
    intro keys
    induction keys with
    | nil => simp
    | cons head rest ih =>
      intro p
      rw [List.foldl_cons, ih, holders_add, List.mem_cons]
      by_cases hkey : key = head
      · subst hkey
        simp only [if_true, SortedMap.contains_insert, Bool.or_eq_true, decide_eq_true_eq]
        tauto
      · simp [hkey]
  exact step (keysOf c) p

theorem contains_removeAll (p : Postings) (c : Component) (key : Selector × Value)
    (id : ComponentId) :
    ((p.removeAll c).holders key).contains id = true ↔
      ¬ (id = c.id ∧ key ∈ keysOf c) ∧ (p.holders key).contains id = true := by
  have step : ∀ (keys : List (Selector × Value)) (p : Postings),
      ((keys.foldl (remove c.id) p).holders key).contains id = true ↔
        ¬ (id = c.id ∧ key ∈ keys) ∧ (p.holders key).contains id = true := by
    intro keys
    induction keys with
    | nil => simp
    | cons head rest ih =>
      intro p
      rw [List.foldl_cons, ih, holders_remove, List.mem_cons]
      by_cases hkey : key = head
      · subst hkey
        simp only [if_true, SortedMap.contains_erase, Bool.and_eq_true, decide_eq_true_eq]
        tauto
      · simp [hkey]
  exact step (keysOf c) p

/-- A scan finds those who are under the selector and some value that the comparison admits. -/
theorem contains_matching (p : Postings) (r : Rule) (id : ComponentId) :
    (p.matching r).contains id = true ↔ ∃ v,
      (p.holders (r.selector, v)).contains id = true ∧
        r.comparison.evaluate v r.operand = .holds :=
  (p.shelf r.selector).contains_matching r id

end Postings

end Rendezvous
