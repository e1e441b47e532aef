/-!
# Maps in ascending key order

A `SortedMap` is the list of its entries in strictly ascending key order. The order is part of the
type, so a map has exactly one representation: two maps that answer every look-up alike are equal
(`SortedMap.ext_get?`), and listing a map is the order in which it is shown.

A `SortedSet` is such a map without values.
-/

namespace Rendezvous

/-- Entries in strictly ascending key order, hence each key once. -/
structure SortedMap (κ : Type) (ν : Type) [Ord κ] where
  /-- The entries from the least key to the greatest. -/
  toList : List (κ × ν)
  ascending : toList.Pairwise fun a b => compare a.1 b.1 = .lt
deriving DecidableEq

namespace SortedMap

variable {κ ν : Type} [Ord κ]

/-! ## On entry lists -/

/-- The value of the first entry under the key. -/
def find? (k : κ) : List (κ × ν) → Option ν
  | [] => none
  | (k', v) :: rest => if compare k k' = .eq then some v else find? k rest

/-- Puts an entry at its place in an ascending list; an entry with the same key gives way. -/
def place (k : κ) (v : ν) : List (κ × ν) → List (κ × ν)
  | [] => [(k, v)]
  | (k', v') :: rest =>
    match compare k k' with
    | .lt => (k, v) :: (k', v') :: rest
    | .eq => (k, v) :: rest
    | .gt => (k', v') :: place k v rest

/-- Drops every entry under the key. -/
def dropKey (k : κ) (entries : List (κ × ν)) : List (κ × ν) :=
  entries.filter fun e => compare k e.1 != .eq

theorem mem_place {k : κ} {v : ν} {entries : List (κ × ν)} {e : κ × ν}
    (h : e ∈ place k v entries) : e = (k, v) ∨ e ∈ entries := by
  induction entries with
  | nil => simpa [place] using h
  | cons head rest ih =>
    obtain ⟨k', v'⟩ := head
    simp only [place] at h
    split at h
    · simpa using h
    · rcases List.mem_cons.mp h with h | h
      · exact .inl h
      · exact .inr (List.mem_cons_of_mem _ h)
    · rcases List.mem_cons.mp h with h | h
      · exact .inr (h ▸ List.mem_cons_self ..)
      · exact (ih h).imp_right (List.mem_cons_of_mem _)

section Entries

variable [Std.TransOrd κ] [Std.LawfulEqOrd κ]

theorem place_ascending (k : κ) (v : ν) {entries : List (κ × ν)}
    (h : entries.Pairwise fun a b => compare a.1 b.1 = .lt) :
    (place k v entries).Pairwise fun a b => compare a.1 b.1 = .lt := by
  induction entries with
  | nil => simp [place]
  | cons head rest ih =>
    obtain ⟨k', v'⟩ := head
    obtain ⟨hhead, hrest⟩ := List.pairwise_cons.mp h
    simp only [place]
    split
    · next hlt =>
      refine List.pairwise_cons.mpr ⟨fun e he => ?_, h⟩
      rcases List.mem_cons.mp he with rfl | he
      · exact hlt
      · exact Std.TransCmp.lt_trans hlt (hhead e he)
    · next heq =>
      have hk : k = k' := Std.LawfulEqOrd.eq_of_compare heq
      exact List.pairwise_cons.mpr ⟨fun e he => hk ▸ hhead e he, hrest⟩
    · next hgt =>
      refine List.pairwise_cons.mpr ⟨fun e he => ?_, ih hrest⟩
      rcases mem_place he with rfl | he
      · exact Std.OrientedCmp.gt_iff_lt.mp hgt
      · exact hhead e he

omit [Std.TransOrd κ] in
theorem find?_place [DecidableEq κ] (k k' : κ) (v : ν) {entries : List (κ × ν)} :
    find? k' (place k v entries) = if k' = k then some v else find? k' entries := by
  induction entries with
  | nil => simp [place, find?]
  | cons head rest ih =>
    obtain ⟨k'', v''⟩ := head
    simp only [place]
    split
    · next hlt =>
      by_cases h : k' = k <;> simp [find?, h]
    · next heq =>
      have hk : k = k'' := Std.LawfulEqOrd.eq_of_compare heq
      subst hk
      by_cases h : k' = k <;> simp [find?, h]
    · next hgt =>
      by_cases h : k' = k''
      · subst h
        have : ¬ k' = k := by
          rintro rfl
          simp at hgt
        simp [find?, this]
      · simp [find?, h, ih]

omit [Std.TransOrd κ] in
theorem find?_dropKey [DecidableEq κ] (k k' : κ) (entries : List (κ × ν)) :
    find? k' (dropKey k entries) = if k' = k then none else find? k' entries := by
  induction entries with
  | nil => simp [dropKey, find?]
  | cons head rest ih =>
    obtain ⟨k'', v''⟩ := head
    unfold dropKey at ih ⊢
    rw [List.filter_cons]
    by_cases h : k = k''
    · subst h
      simp only [Std.compare_self, bne_self_eq_false, Bool.false_eq_true, ↓reduceIte, ih]
      by_cases h' : k' = k <;> simp [find?, h']
    · by_cases h' : k' = k''
      · subst h'
        simp [find?, h, Ne.symm h]
      · simp [find?, h, h', ih]

omit [Std.TransOrd κ] in
theorem find?_eq_some_iff_mem {entries : List (κ × ν)}
    (h : entries.Pairwise fun a b => compare a.1 b.1 = .lt) {k : κ} {v : ν} :
    find? k entries = some v ↔ (k, v) ∈ entries := by
  induction entries with
  | nil => simp [find?]
  | cons head rest ih =>
    obtain ⟨k', v'⟩ := head
    obtain ⟨hhead, hrest⟩ := List.pairwise_cons.mp h
    by_cases hk : k = k'
    · subst hk
      have hnot : (k, v) ∉ rest := fun hmem => by simpa using hhead _ hmem
      simp [find?, hnot, eq_comm]
    · simp [find?, hk, ih hrest]

theorem eq_of_find?_eq {xs ys : List (κ × ν)}
    (hx : xs.Pairwise fun a b => compare a.1 b.1 = .lt)
    (hy : ys.Pairwise fun a b => compare a.1 b.1 = .lt)
    (h : ∀ k, find? k xs = find? k ys) : xs = ys := by
  induction xs generalizing ys with
  | nil =>
    cases ys with
    | nil => rfl
    | cons head rest => simpa [find?] using h head.1
  | cons a xs ih =>
    cases ys with
    | nil => simpa [find?] using h a.1
    | cons b ys =>
      obtain ⟨ka, va⟩ := a
      obtain ⟨kb, vb⟩ := b
      obtain ⟨hax, hxs⟩ := List.pairwise_cons.mp hx
      obtain ⟨hby, hys⟩ := List.pairwise_cons.mp hy
      have memIff : ∀ e : κ × ν, e ∈ (ka, va) :: xs ↔ e ∈ (kb, vb) :: ys := fun e => by
        rw [← find?_eq_some_iff_mem hx, ← find?_eq_some_iff_mem hy, h]
      have hk : ka = kb := by
        have h1 := (memIff (ka, va)).mp (List.mem_cons_self ..)
        have h2 := (memIff (kb, vb)).mpr (List.mem_cons_self ..)
        rcases List.mem_cons.mp h1 with e | h1
        · exact congrArg Prod.fst e
        rcases List.mem_cons.mp h2 with e | h2
        · exact (congrArg Prod.fst e).symm
        · have := Std.TransCmp.lt_trans (hby _ h1) (hax _ h2)
          simp at this
      subst hk
      have hv : va = vb := by simpa [find?] using h ka
      subst hv
      have : xs = ys := ih hxs hys fun k => by
        by_cases hk : k = ka
        · subst hk
          have none_of : ∀ {l : List (κ × ν)}, (∀ e ∈ l, compare k e.1 = .lt) →
              find? k l = none := by
            intro l hl
            induction l with
            | nil => rfl
            | cons e l ihl =>
              have := hl e (List.mem_cons_self ..)
              simp [find?, this, ihl fun e he => hl e (List.mem_cons_of_mem _ he)]
          rw [none_of fun e he => hax e he, none_of fun e he => hby e he]
        · simpa [find?, hk] using h k
      rw [this]

end Entries

/-! ## The map -/

/-- The map without entries. -/
def empty : SortedMap κ ν := ⟨[], List.Pairwise.nil⟩

instance : EmptyCollection (SortedMap κ ν) := ⟨empty⟩

instance : Inhabited (SortedMap κ ν) := ⟨empty⟩

/-- The value stored under the key. -/
def get? (m : SortedMap κ ν) (k : κ) : Option ν := find? k m.toList

/-- Whether the key has a value. -/
def contains (m : SortedMap κ ν) (k : κ) : Bool := (m.get? k).isSome

/-- The number of entries. -/
def size (m : SortedMap κ ν) : Nat := m.toList.length

/-- Whether there is no entry. -/
def isEmpty (m : SortedMap κ ν) : Bool := m.toList.isEmpty

/-- The keys, ascending. -/
def keys (m : SortedMap κ ν) : List κ := m.toList.map Prod.fst

/-- The values in the order of their keys. -/
def values (m : SortedMap κ ν) : List ν := m.toList.map Prod.snd

/-- Stores a value under the key in place of the one that was there. -/
def insert [Std.TransOrd κ] [Std.LawfulEqOrd κ] (m : SortedMap κ ν) (k : κ) (v : ν) :
    SortedMap κ ν :=
  ⟨place k v m.toList, place_ascending k v m.ascending⟩

/-- Removes the key and its value. -/
def erase (m : SortedMap κ ν) (k : κ) : SortedMap κ ν :=
  ⟨dropKey k m.toList, m.ascending.sublist List.filter_sublist⟩

/-- Keeps the entries that pass the test. -/
def filter (m : SortedMap κ ν) (keep : κ → ν → Bool) : SortedMap κ ν :=
  ⟨m.toList.filter fun e => keep e.1 e.2, m.ascending.sublist List.filter_sublist⟩

/-- Inserts the entries one after the other. -/
def insertAll [Std.TransOrd κ] [Std.LawfulEqOrd κ] (m : SortedMap κ ν)
    (entries : List (κ × ν)) : SortedMap κ ν :=
  entries.foldl (fun m e => m.insert e.1 e.2) m

/-- The map of a list of entries, of which the last under a key counts. -/
def ofList [Std.TransOrd κ] [Std.LawfulEqOrd κ] (entries : List (κ × ν)) : SortedMap κ ν :=
  (empty : SortedMap κ ν).insertAll entries

@[simp] theorem get?_empty (k : κ) : (empty : SortedMap κ ν).get? k = none := rfl

section Lemmas

variable [Std.TransOrd κ] [Std.LawfulEqOrd κ]

theorem get?_insert [DecidableEq κ] (m : SortedMap κ ν) (k k' : κ) (v : ν) :
    (m.insert k v).get? k' = if k' = k then some v else m.get? k' :=
  find?_place k k' v

@[simp] theorem get?_insert_self (m : SortedMap κ ν) (k : κ) (v : ν) :
    (m.insert k v).get? k = some v := by
  classical simp [get?_insert]

theorem get?_insert_of_ne (m : SortedMap κ ν) {k k' : κ} (h : k' ≠ k) (v : ν) :
    (m.insert k v).get? k' = m.get? k' := by
  classical simp [get?_insert, h]

theorem isEmpty_insert (m : SortedMap κ ν) (k : κ) (v : ν) : (m.insert k v).isEmpty = false := by
  cases h : (m.insert k v).isEmpty with
  | false => rfl
  | true =>
    have hnil : (m.insert k v).toList = [] := List.isEmpty_iff.mp h
    have found : find? k (m.insert k v).toList = some v := get?_insert_self m k v
    rw [hnil] at found
    cases found

omit [Std.TransOrd κ] in
theorem get?_erase [DecidableEq κ] (m : SortedMap κ ν) (k k' : κ) :
    (m.erase k).get? k' = if k' = k then none else m.get? k' :=
  find?_dropKey k k' m.toList

omit [Std.TransOrd κ] in
@[simp] theorem get?_erase_self (m : SortedMap κ ν) (k : κ) : (m.erase k).get? k = none := by
  classical simp [get?_erase]

omit [Std.TransOrd κ] in
theorem get?_erase_of_ne (m : SortedMap κ ν) {k k' : κ} (h : k' ≠ k) :
    (m.erase k).get? k' = m.get? k' := by
  classical simp [get?_erase, h]

omit [Std.TransOrd κ] in
/-- An entry is listed exactly if it is found under its key. -/
theorem mem_toList {m : SortedMap κ ν} {k : κ} {v : ν} :
    (k, v) ∈ m.toList ↔ m.get? k = some v :=
  (find?_eq_some_iff_mem m.ascending).symm

/-- Look-ups determine a map. -/
theorem ext_get? {m n : SortedMap κ ν} (h : ∀ k, m.get? k = n.get? k) : m = n := by
  obtain ⟨ms, hm⟩ := m
  obtain ⟨ns, hn⟩ := n
  have : ms = ns := eq_of_find?_eq hm hn h
  subst this
  rfl

end Lemmas

end SortedMap

/-- A set as a map without values. -/
abbrev SortedSet (κ : Type) [Ord κ] := SortedMap κ Unit

namespace SortedSet

variable {κ : Type} [Ord κ]

/-- The members, ascending. -/
abbrev members (s : SortedSet κ) : List κ := s.keys

variable [Std.TransOrd κ] [Std.LawfulEqOrd κ]

/-- The set with one member more. -/
abbrev add (s : SortedSet κ) (k : κ) : SortedSet κ := SortedMap.insert s k ()

/-- The set of the elements of a list. -/
def ofList (ks : List κ) : SortedSet κ := ks.foldl add SortedMap.empty

/-- The members of either set. -/
def union (s t : SortedSet κ) : SortedSet κ := t.members.foldl add s

/-- The members of `s` that are in `t`. -/
def inter (s t : SortedSet κ) : SortedSet κ := s.filter fun k _ => t.contains k

/-- The members of `s` that are not in `t`. -/
def diff (s t : SortedSet κ) : SortedSet κ := s.filter fun k _ => !t.contains k

end SortedSet

end Rendezvous
