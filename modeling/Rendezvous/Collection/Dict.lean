/-!
# Dictionaries

A `Dict` holds each key once, in the order in which the keys first came. It asks of its keys only
that their equality can be decided. Where the order of entries is shown to anyone, a `SortedMap` is
used instead.
-/

namespace Rendezvous

/-- Entries with pairwise different keys. -/
structure Dict (κ ν : Type) where
  entries : List (κ × ν)
  distinct : (entries.map Prod.fst).Nodup

namespace Dict

variable {κ ν : Type} [DecidableEq κ]

/-! ## On entry lists -/

/-- The value of the first entry under the key. -/
def find? (k : κ) : List (κ × ν) → Option ν
  | [] => none
  | (k', v) :: rest => if k = k' then some v else find? k rest

/-- Gives the key the value, at its old place or else at the end. -/
def put (k : κ) (v : ν) : List (κ × ν) → List (κ × ν)
  | [] => [(k, v)]
  | (k', v') :: rest => if k = k' then (k, v) :: rest else (k', v') :: put k v rest

theorem map_fst_put (k : κ) (v : ν) (entries : List (κ × ν)) :
    (put k v entries).map Prod.fst =
      if k ∈ entries.map Prod.fst then entries.map Prod.fst
      else entries.map Prod.fst ++ [k] := by
  induction entries with
  | nil => simp [put]
  | cons head rest ih =>
    obtain ⟨k', v'⟩ := head
    by_cases h : k = k'
    · simp [put, h]
    · by_cases hr : k ∈ rest.map Prod.fst <;> simp_all [put]

theorem distinct_put {k : κ} {v : ν} {entries : List (κ × ν)}
    (h : (entries.map Prod.fst).Nodup) : ((put k v entries).map Prod.fst).Nodup := by
  rw [map_fst_put]
  split
  · exact h
  · next hnot =>
    refine List.nodup_append.mpr ⟨h, by simp, fun a ha b hb => ?_⟩
    rw [List.mem_singleton.mp hb]
    exact fun e => hnot (e ▸ ha)

theorem find?_put (k k' : κ) (v : ν) (entries : List (κ × ν)) :
    find? k' (put k v entries) = if k' = k then some v else find? k' entries := by
  induction entries with
  | nil => simp [put, find?]
  | cons head rest ih =>
    obtain ⟨k'', v''⟩ := head
    by_cases h : k = k''
    · subst h
      by_cases h' : k' = k <;> simp [put, find?, h']
    · by_cases h' : k' = k''
      · subst h'
        simp [put, find?, h, Ne.symm h]
      · simp [put, find?, h, h', ih]

theorem find?_filter (k k' : κ) (entries : List (κ × ν)) :
    find? k' (entries.filter fun e => e.1 ≠ k) = if k' = k then none else find? k' entries := by
  induction entries with
  | nil => simp [find?]
  | cons head rest ih =>
    obtain ⟨k'', v''⟩ := head
    by_cases h : k'' = k
    · subst h
      by_cases h' : k' = k'' <;> simp_all [find?]
    · by_cases h' : k' = k'' <;> simp_all [find?]

theorem find?_eq_some_iff_mem {entries : List (κ × ν)} (h : (entries.map Prod.fst).Nodup)
    {k : κ} {v : ν} : find? k entries = some v ↔ (k, v) ∈ entries := by
  induction entries with
  | nil => simp [find?]
  | cons head rest ih =>
    obtain ⟨k', v'⟩ := head
    obtain ⟨hnot, hrest⟩ := List.nodup_cons.mp h
    by_cases hk : k = k'
    · subst hk
      have : (k, v) ∉ rest := fun hmem => hnot (List.mem_map.mpr ⟨_, hmem, rfl⟩)
      simp [find?, this, eq_comm]
    · simp [find?, hk, ih hrest]

/-! ## The dictionary -/

/-- The dictionary without entries. -/
def empty : Dict κ ν := ⟨[], List.nodup_nil⟩

instance : EmptyCollection (Dict κ ν) := ⟨empty⟩

instance : Inhabited (Dict κ ν) := ⟨empty⟩

/-- The value stored under the key. -/
def get? (d : Dict κ ν) (k : κ) : Option ν := find? k d.entries

/-- The number of entries. -/
def size (d : Dict κ ν) : Nat := d.entries.length

/-- Stores a value under the key in place of the one that was there. -/
def insert (d : Dict κ ν) (k : κ) (v : ν) : Dict κ ν :=
  ⟨put k v d.entries, distinct_put d.distinct⟩

/-- Removes the key and its value. -/
def erase (d : Dict κ ν) (k : κ) : Dict κ ν :=
  ⟨d.entries.filter fun e => e.1 ≠ k,
    d.distinct.sublist (List.filter_sublist.map Prod.fst)⟩

theorem get?_empty (k : κ) : (empty : Dict κ ν).get? k = none := rfl

theorem get?_insert (d : Dict κ ν) (k k' : κ) (v : ν) :
    (d.insert k v).get? k' = if k' = k then some v else d.get? k' :=
  find?_put k k' v d.entries

theorem get?_erase (d : Dict κ ν) (k k' : κ) :
    (d.erase k).get? k' = if k' = k then none else d.get? k' :=
  find?_filter k k' d.entries

theorem get?_erase_self (d : Dict κ ν) (k : κ) : (d.erase k).get? k = none := by
  rw [get?_erase, if_pos rfl]

theorem get?_erase_of_ne (d : Dict κ ν) {k k' : κ} (h : k' ≠ k) :
    (d.erase k).get? k' = d.get? k' := by
  rw [get?_erase, if_neg h]

/-- An entry is listed exactly if it is found under its key. -/
theorem mem_entries {d : Dict κ ν} {k : κ} {v : ν} :
    (k, v) ∈ d.entries ↔ d.get? k = some v :=
  (find?_eq_some_iff_mem d.distinct).symm

theorem size_insert (d : Dict κ ν) (k : κ) (v : ν) :
    (d.insert k v).size = if k ∈ d.entries.map Prod.fst then d.size else d.size + 1 := by
  have hlength : (d.insert k v).size = ((put k v d.entries).map Prod.fst).length := by
    simp [size, insert]
  rw [hlength, map_fst_put]
  split <;> simp [size]

theorem size_insert_le (d : Dict κ ν) (k : κ) (v : ν) : (d.insert k v).size ≤ d.size + 1 := by
  rw [size_insert]
  split <;> omega

theorem size_insert_of_get? {d : Dict κ ν} {k : κ} {w : ν} (h : d.get? k = some w) (v : ν) :
    (d.insert k v).size = d.size := by
  rw [size_insert, if_pos (List.mem_map.mpr ⟨(k, w), mem_entries.mpr h, rfl⟩)]

theorem size_erase_le (d : Dict κ ν) (k : κ) : (d.erase k).size ≤ d.size :=
  List.length_filter_le ..

theorem size_erase_lt {d : Dict κ ν} {k : κ} {v : ν} (h : d.get? k = some v) :
    (d.erase k).size < d.size :=
  List.length_filter_lt_length_iff_exists.mpr ⟨(k, v), mem_entries.mpr h, by simp⟩

end Dict

end Rendezvous
