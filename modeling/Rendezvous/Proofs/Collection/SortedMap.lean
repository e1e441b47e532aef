import Rendezvous.Proofs.Collection.SortedSet
/-!
# Maps from lists

A map is made again from the list of its entries (`SortedMap.ofList_toList`), and maps whose values
correspond under every key list corresponding values (`SortedMap.values_of_get?`).
-/

namespace Rendezvous

namespace SortedMap

variable {κ ν : Type} [Ord κ] [Std.TransOrd κ] [Std.LawfulEqOrd κ]

omit [Std.TransOrd κ] [Std.LawfulEqOrd κ] in
theorem find?_eq_none {k : κ} {entries : List (κ × ν)} (h : ∀ e ∈ entries, compare k e.1 ≠ .eq) :
    find? k entries = none := by
  induction entries with
  | nil => rfl
  | cons e rest ih =>
    unfold find?
    rw [if_neg (h e (List.mem_cons_self ..))]
    exact ih fun e he => h e (List.mem_cons_of_mem _ he)

/-- Entries whose keys are ascending do not get into each other's way. -/
theorem get?_insertAll {entries : List (κ × ν)}
    (h : entries.Pairwise fun a b => compare a.1 b.1 = .lt) (m : SortedMap κ ν) (k : κ) :
    (m.insertAll entries).get? k = (find? k entries).or (m.get? k) := by
  classical
  induction entries generalizing m with
  | nil => rfl
  | cons e rest ih =>
    obtain ⟨hhead, hrest⟩ := List.pairwise_cons.mp h
    show ((m.insert e.1 e.2).insertAll rest).get? k = _
    rw [ih hrest, get?_insert]
    by_cases hk : k = e.1
    · have hnone : find? k rest = none := by
        refine find?_eq_none fun e' he' => ?_
        rw [hk, hhead e' he']
        decide
      rw [if_pos hk, hnone]
      simp [find?, hk]
    · rw [if_neg hk]
      simp [find?, hk]

/-- What stands in a map after insertions was inserted or stood there before. -/
theorem mem_of_get?_insertAll {entries : List (κ × ν)} {m : SortedMap κ ν} {k : κ} {v : ν}
    (h : (m.insertAll entries).get? k = some v) : (k, v) ∈ entries ∨ m.get? k = some v := by
  classical
  induction entries generalizing m with
  | nil => exact .inr h
  | cons e rest ih =>
    rcases ih h with hrest | hinsert
    · exact .inl (List.mem_cons_of_mem _ hrest)
    · rw [get?_insert] at hinsert
      split at hinsert
      · next hk =>
        cases hinsert
        rw [hk]
        exact .inl (List.mem_cons_self ..)
      · exact .inr hinsert

theorem contains_insertAll (m : SortedMap κ ν) (entries : List (κ × ν)) (k : κ) :
    (m.insertAll entries).contains k = true ↔ m.contains k = true ∨ k ∈ entries.map Prod.fst := by
  classical
  induction entries generalizing m with
  | nil => simp [insertAll]
  | cons e rest ih =>
    rw [insertAll, List.foldl_cons, ← insertAll, ih, contains_insert, List.map_cons, List.mem_cons]
    by_cases hk : k = e.1 <;> simp [hk]

theorem ofList_toList (m : SortedMap κ ν) : ofList m.toList = m := by
  refine ext_get? fun k => ?_
  unfold ofList
  rw [get?_insertAll m.ascending, get?_empty, Option.or_none]
  rfl

/-- A map of values that tell their keys lists them again. -/
theorem values_ofList {key : ν → κ} {vs : List ν}
    (ascending : vs.Pairwise fun a b => compare (key a) (key b) = .lt) :
    (ofList (vs.map fun v => (key v, v))).values = vs := by
  have hlist := ofList_toList ⟨vs.map fun v => (key v, v), List.pairwise_map.mpr ascending⟩
  simp only at hlist
  rw [hlist, values, List.map_map]
  exact List.map_id vs

omit [Std.TransOrd κ] in
/-- Where the values tell their keys, the list of the values has all entries. -/
theorem map_values_eq_toList {m : SortedMap κ ν} {key : ν → κ}
    (h : ∀ k v, m.get? k = some v → key v = k) :
    (m.values.map fun v => (key v, v)) = m.toList := by
  have hentry : ∀ e ∈ m.toList, (key e.2, e.2) = e := by
    intro e he
    rw [h e.1 e.2 (mem_toList.mp he)]
  unfold values
  rw [List.map_map]
  calc m.toList.map (fun e => (key e.2, e.2))
    _ = m.toList.map id := List.map_congr_left hentry
    _ = m.toList := List.map_id _

omit [Std.TransOrd κ] in
theorem find?_map {ω : Type} (f : ν → ω) (k : κ) (entries : List (κ × ν)) :
    find? k (entries.map fun e => (e.1, f e.2)) = (find? k entries).map f := by
  classical
  induction entries with
  | nil => rfl
  | cons e rest ih =>
    by_cases hk : k = e.1
    · simp [find?, hk]
    · simp [find?, hk, ih]

theorem values_of_get? {ω : Type} {m : SortedMap κ ν} {n : SortedMap κ ω} {f : ν → ω}
    (h : ∀ k, n.get? k = (m.get? k).map f) : n.values = m.values.map f := by
  have hascending : (m.toList.map fun e => (e.1, f e.2)).Pairwise
      fun a b => compare a.1 b.1 = .lt :=
    List.pairwise_map.mpr m.ascending
  have hentries : n.toList = m.toList.map fun e => (e.1, f e.2) := by
    refine eq_of_find?_eq n.ascending hascending fun k => ?_
    rw [find?_map]
    exact h k
  unfold values
  rw [hentries, List.map_map, List.map_map]
  rfl

end SortedMap

namespace SortedSet

variable {κ : Type} [Ord κ] [Std.TransOrd κ] [Std.LawfulEqOrd κ]

theorem ofList_members (s : SortedSet κ) : ofList s.members = s := by
  refine ext_contains fun k => ?_
  rw [Bool.eq_iff_iff, contains_ofList]
  exact SortedMap.mem_keys

end SortedSet

end Rendezvous
