import Rendezvous.Collection.SortedMap
/-!
# The algebra of sorted sets

What each operation on sorted maps and sets does to `contains`. A set is determined by what it
contains (`SortedSet.ext_contains`), and its members are listed in strictly ascending order
(`SortedMap.keys_ascending`), so the order in which operations are done never shows.
-/

namespace Rendezvous

namespace SortedMap

variable {κ ν : Type} [Ord κ]

theorem contains_iff {m : SortedMap κ ν} {k : κ} :
    m.contains k = true ↔ ∃ v, m.get? k = some v :=
  Option.isSome_iff_exists

theorem keys_ascending (m : SortedMap κ ν) :
    m.keys.Pairwise fun a b => compare a b = .lt :=
  List.pairwise_map.mpr m.ascending

theorem eq_empty_of_isEmpty {m : SortedMap κ ν} (h : m.isEmpty = true) : m = ∅ := by
  obtain ⟨entries, ascending⟩ := m
  have hnil : entries = [] := List.isEmpty_iff.mp h
  subst hnil
  rfl

@[simp] theorem contains_empty (k : κ) : (∅ : SortedMap κ ν).contains k = false := rfl

section Lawful

variable [Std.LawfulEqOrd κ]

/-- The listed keys are those that have a value. -/
theorem mem_keys [Std.TransOrd κ] {m : SortedMap κ ν} {k : κ} :
    k ∈ m.keys ↔ m.contains k = true := by
  rw [contains_iff, keys, List.mem_map]
  constructor
  · rintro ⟨⟨k', v⟩, he, rfl⟩
    exact ⟨v, mem_toList.mp he⟩
  · rintro ⟨v, hv⟩
    exact ⟨(k, v), mem_toList.mpr hv, rfl⟩

/-- The listed values are those that stand under some key. -/
theorem mem_values [Std.TransOrd κ] {m : SortedMap κ ν} {v : ν} :
    v ∈ m.values ↔ ∃ k, m.get? k = some v := by
  rw [values, List.mem_map]
  constructor
  · rintro ⟨⟨k, v'⟩, he, rfl⟩
    exact ⟨k, mem_toList.mp he⟩
  · rintro ⟨k, hk⟩
    exact ⟨(k, v), mem_toList.mpr hk, rfl⟩

theorem contains_insert [Std.TransOrd κ] [DecidableEq κ] (m : SortedMap κ ν) (k k' : κ) (v : ν) :
    (m.insert k v).contains k' = (decide (k' = k) || m.contains k') := by
  by_cases h : k' = k <;> simp [contains, get?_insert, h]

theorem contains_erase [DecidableEq κ] (m : SortedMap κ ν) (k k' : κ) :
    (m.erase k).contains k' = (decide (k' ≠ k) && m.contains k') := by
  by_cases h : k' = k <;> simp [contains, get?_erase, h]

theorem find?_filter (keep : κ → ν → Bool) (k : κ) {entries : List (κ × ν)}
    (h : entries.Pairwise fun a b => compare a.1 b.1 = .lt) :
    find? k (entries.filter fun e => keep e.1 e.2) = (find? k entries).filter (keep k) := by
  induction entries with
  | nil => rfl
  | cons head rest ih =>
    obtain ⟨k', v'⟩ := head
    obtain ⟨hhead, hrest⟩ := List.pairwise_cons.mp h
    rw [List.filter_cons]
    by_cases hk : k = k'
    · subst hk
      cases hkeep : keep k v' with
      | true => simp [find?, Option.filter, hkeep]
      | false =>
        -- The rest has no second entry under the key.
        have hnone : find? k rest = none := by
          cases hfind : find? k rest with
          | none => rfl
          | some v =>
            have hmem := (find?_eq_some_iff_mem hrest).mp hfind
            simpa using hhead _ hmem
        simp [find?, Option.filter, hkeep, ih hrest, hnone]
    · cases keep k' v' <;> simp [find?, hk, ih hrest]

theorem get?_filter (m : SortedMap κ ν) (keep : κ → ν → Bool) (k : κ) :
    (m.filter keep).get? k = (m.get? k).filter (keep k) :=
  find?_filter keep k m.ascending

theorem isEmpty_iff [Std.TransOrd κ] {m : SortedMap κ ν} :
    m.isEmpty = true ↔ ∀ k, m.contains k = false := by
  rw [isEmpty, List.isEmpty_iff]
  constructor
  · intro h k
    simp [contains, get?, h, find?]
  · intro h
    cases hl : m.toList with
    | nil => rfl
    | cons e rest =>
      have hmem : (e.1, e.2) ∈ m.toList := hl ▸ List.mem_cons_self
      have : m.contains e.1 = true := contains_iff.mpr ⟨e.2, mem_toList.mp hmem⟩
      rw [h] at this
      exact absurd this (by simp)

end Lawful

end SortedMap

namespace SortedSet

variable {κ : Type} [Ord κ] [Std.TransOrd κ] [Std.LawfulEqOrd κ]

/-- What a set contains determines it. -/
theorem ext_contains {s t : SortedSet κ} (h : ∀ k, s.contains k = t.contains k) : s = t := by
  refine SortedMap.ext_get? fun k => ?_
  have hk := h k
  unfold SortedMap.contains at hk
  cases hs : s.get? k <;> cases ht : t.get? k <;> simp_all

theorem contains_foldl_add (ks : List κ) (s : SortedSet κ) (k : κ) :
    (ks.foldl add s).contains k = true ↔ s.contains k = true ∨ k ∈ ks := by
  classical
  induction ks generalizing s with
  | nil => simp
  | cons head rest ih =>
    rw [List.foldl_cons, ih, SortedMap.contains_insert, List.mem_cons]
    by_cases hk : k = head <;> simp [hk]

theorem contains_ofList (ks : List κ) (k : κ) : (ofList ks).contains k = true ↔ k ∈ ks := by
  rw [ofList, contains_foldl_add]
  exact or_iff_right (by simp [SortedMap.contains])

theorem contains_union (s t : SortedSet κ) (k : κ) :
    (s.union t).contains k = (s.contains k || t.contains k) := by
  rw [union, Bool.eq_iff_iff, contains_foldl_add, Bool.or_eq_true]
  exact or_congr_right SortedMap.mem_keys

omit [Std.TransOrd κ] in
theorem contains_filter (s : SortedSet κ) (keep : κ → Unit → Bool) (k : κ) :
    (s.filter keep).contains k = (s.contains k && keep k ()) := by
  rw [SortedMap.contains, SortedMap.get?_filter, SortedMap.contains]
  cases hs : s.get? k <;> cases hk : keep k () <;> simp [Option.filter, hk]

omit [Std.TransOrd κ] in
theorem contains_inter (s t : SortedSet κ) (k : κ) :
    (s.inter t).contains k = (s.contains k && t.contains k) :=
  contains_filter s _ k

omit [Std.TransOrd κ] in
theorem contains_diff (s t : SortedSet κ) (k : κ) :
    (s.diff t).contains k = (s.contains k && !t.contains k) :=
  contains_filter s _ k

end SortedSet

end Rendezvous
