import Mathlib.Data.List.Sort
import Rendezvous.Proofs.Directory.Index
/-!
# Searching a directory

Whatever has happened to a directory, a search finds exactly the components of which the query
holds, each once and by name (`Directory.search_exact`). The history is any list of changes, of
which some may have been refused. This needs attributes that stand under their own names, as those
of messages do; whatever the attributes are, searches are exact if and only if no comparison can
tell (`Directory.Posted.exact_iff`).
-/

namespace Rendezvous

namespace Directory

/-- A call that may change a directory. -/
inductive Change
  | insert (c : Component)
  | remove (id : ComponentId)
  | update (id : ComponentId) (delta : Attributes) (mode : UpdateMode)

/-- The directory after a call. One that is refused leaves it as it was. -/
def apply (d : Directory) : Change → Directory
  | .insert c =>
    match d.insert c with
    | .ok r => r.2
    | .error _ => d
  | .remove id => (d.remove id).2
  | .update id delta mode =>
    match d.update id delta mode with
    | .ok r => r.2
    | .error _ => d

/-- The directory after calls on the empty one. -/
def after (changes : List Change) : Directory := changes.foldl apply ∅

theorem apply_insert {d d' : Directory} {c : Component} {previous : Option Component}
    (h : d.insert c = .ok (previous, d')) : d.apply (.insert c) = d' := by
  simp only [apply, h]

theorem apply_update {d d' : Directory} {id : ComponentId} {delta : Attributes}
    {mode : UpdateMode} {updated : Component} (h : d.update id delta mode = .ok (updated, d')) :
    d.apply (.update id delta mode) = d' := by
  simp only [apply, h]

/-- What a call does: nothing, or what its operation does. -/
theorem apply_cases (d : Directory) (change : Change) :
    d.apply change = d ∨
    (∃ c previous d', change = .insert c ∧ d.insert c = .ok (previous, d') ∧
      d.apply change = d') ∨
    (∃ id, change = .remove id ∧ d.apply change = (d.remove id).2) ∨
    ∃ id delta mode updated d', change = .update id delta mode ∧
      d.update id delta mode = .ok (updated, d') ∧ d.apply change = d' := by
  cases change with
  | insert c =>
    cases h : d.insert c with
    | ok r => exact .inr (.inl ⟨c, r.1, r.2, rfl, h, apply_insert h⟩)
    | error e => exact .inl (by simp only [apply, h])
  | remove id => exact .inr (.inr (.inl ⟨id, rfl, rfl⟩))
  | update id delta mode =>
    cases h : d.update id delta mode with
    | ok r => exact .inr (.inr (.inr ⟨id, delta, mode, r.1, r.2, rfl, h, apply_update h⟩))
    | error e => exact .inl (by simp only [apply, h])

theorem Indexed.apply {d : Directory} (indexed : d.Indexed) {change : Change}
    (keyed : ∀ c, change = .insert c → c.Keyed) : (d.apply change).Indexed := by
  rcases d.apply_cases change with h | ⟨c, previous, d', hchange, hinsert, h⟩ | ⟨id, -, h⟩ |
    ⟨id, delta, mode, updated, d', -, hupdate, h⟩
  · rw [h]
    exact indexed
  · rw [h]
    exact indexed.insert (keyed c hchange) hinsert
  · rw [h]
    exact indexed.remove id
  · rw [h]
    exact indexed.update hupdate

theorem Named.apply {d : Directory} (named : d.Named) (change : Change) :
    (d.apply change).Named := by
  rcases d.apply_cases change with h | ⟨c, previous, d', -, hinsert, h⟩ | ⟨id, -, h⟩ |
    ⟨id, delta, mode, updated, d', -, hupdate, h⟩
  · rw [h]
    exact named
  · rw [h]
    exact named.insert hinsert
  · rw [h]
    exact named.remove id
  · rw [h]
    exact named.update hupdate

/-- The index stays that of the stored components through any changes. -/
theorem Indexed.applyAll {d : Directory} (indexed : d.Indexed) {changes : List Change}
    (keyed : ∀ c, .insert c ∈ changes → c.Keyed) : (changes.foldl Directory.apply d).Indexed := by
  induction changes generalizing d with
  | nil => exact indexed
  | cons change rest ih =>
    refine ih (indexed.apply fun c hc => ?_) fun c hc => ?_
    · exact keyed c (hc ▸ List.mem_cons_self)
    · exact keyed c (List.mem_cons_of_mem _ hc)

theorem Named.applyAll {d : Directory} (named : d.Named) (changes : List Change) :
    (changes.foldl Directory.apply d).Named := by
  induction changes generalizing d with
  | nil => exact named
  | cons change rest ih => exact ih (named.apply change)

/-- Nobody goes when components are inserted. -/
theorem contains_insertAll {d : Directory} {id : ComponentId} (h : d.contains id = true)
    (cs : List Component) : ((cs.map .insert).foldl Directory.apply d).contains id = true := by
  induction cs generalizing d with
  | nil => exact h
  | cons c rest ih =>
    refine ih ?_
    cases hop : d.insert c with
    | error e => simpa only [Directory.apply, hop] using h
    | ok r =>
      rw [apply_insert (hop.trans rfl), contains_eq_isSome, get?_insert (hop.trans rfl)]
      split
      · rfl
      · exact h

/-- The index stays that of the stored components through every history. -/
theorem indexed_after (changes : List Change) (keyed : ∀ c, .insert c ∈ changes → c.Keyed) :
    (after changes).Indexed :=
  indexed_empty.applyAll keyed

/-- What is found are the stored components whose names the index finds. -/
theorem Named.mem_search {d : Directory} (named : d.Named) {q : Query} {P : Component → Prop}
    (finds : ∀ id, (q.search d.index).contains id = true ↔ ∃ c, d.get? id = some c ∧ P c)
    (c : Component) : c ∈ d.search q ↔ d.get? c.id = some c ∧ P c := by
  rw [search, List.mem_filterMap]
  simp only [SortedMap.mem_keys, finds]
  constructor
  · rintro ⟨id, ⟨c', hc', hv⟩, hc⟩
    rw [hc'] at hc
    cases hc
    rw [named id c hc']
    exact ⟨hc', hv⟩
  · rintro ⟨hc, hv⟩
    exact ⟨c.id, ⟨c, hc, hv⟩, hc⟩

theorem mem_search {d : Directory} (indexed : d.Indexed) (q : Query) (c : Component) :
    c ∈ d.search q ↔ d.get? c.id = some c ∧ q.verdict c = .holds :=
  indexed.named.mem_search (Query.contains_search indexed.agrees q) c

/-- A stored component is found exactly if the query holds of it. -/
theorem found_iff {d : Directory} (indexed : d.Indexed) {c : Component}
    (stored : d.get? c.id = some c) (q : Query) :
    c.id ∈ (d.search q).map Component.id ↔ q.verdict c = .holds := by
  rw [List.mem_map]
  constructor
  · rintro ⟨c', hc', hid⟩
    obtain ⟨stored', holds⟩ := (mem_search indexed q c').mp hc'
    rw [hid, stored] at stored'
    cases stored'
    exact holds
  · intro holds
    exact ⟨c, (mem_search indexed q c).mpr ⟨stored, holds⟩, rfl⟩

/-- What is found is listed by name. -/
theorem Named.search_ascending {d : Directory} (named : d.Named) (q : Query) :
    (d.search q).Pairwise fun a b => compare a.id b.id = .lt := by
  rw [search, List.pairwise_filterMap]
  refine (SortedMap.keys_ascending (q.search d.index)).imp fun {x y} hlt a ha b hb => ?_
  rw [named x a ha, named y b hb]
  exact hlt

theorem search_ascending {d : Directory} (indexed : d.Indexed) (q : Query) :
    (d.search q).Pairwise fun a b => compare a.id b.id = .lt :=
  indexed.named.search_ascending q

/-- After any calls, refused ones among them, a query over the index finds the names of exactly the
stored components of which it holds, and a search gives those components once each, by name. -/
theorem search_exact (changes : List Change) (keyed : ∀ c, .insert c ∈ changes → c.Keyed)
    (q : Query) :
    (∀ id, (q.search (after changes).index).contains id = true ↔
      ∃ c, (after changes).get? id = some c ∧ q.verdict c = .holds) ∧
    (∀ c, c ∈ (after changes).search q ↔
      (after changes).get? c.id = some c ∧ q.verdict c = .holds) ∧
    ((after changes).search q).Pairwise fun a b => compare a.id b.id = .lt := by
  have indexed := indexed_after changes keyed
  exact ⟨Query.contains_search indexed.agrees q, mem_search indexed q, search_ascending indexed q⟩

/-- Two lamps of which one comes to hide its constant room, and calls that are refused. -/
def lamps : List Change :=
  let room := Attributes.ofList [.valued "room" (.string "hall")]
  [.insert { id := ⟨"b"⟩, kind := .widget, constant := room },
    .insert { id := ⟨"a"⟩, kind := .widget, constant := room,
              nonConstant := Attributes.ofList [.declared "room" .string] },
    .insert { id := ⟨" "⟩, kind := .widget },
    .update ⟨"b"⟩ room .add,
    .remove ⟨"c"⟩]

/-- A component whose room is hidden is one whose room is not the hall. -/
theorem search_exact_lamps :
    (∀ c, .insert c ∈ lamps → c.Keyed) ∧
    ((after lamps).search (.not (.any [.onAttribute "room" .equal (.string "hall")]))).map
      Component.id = [⟨"a"⟩] ∧
    (∀ c, c ∈ (after lamps).search (.not (.any [.onAttribute "room" .equal (.string "hall")])) ↔
      (after lamps).get? c.id = some c ∧
        (Query.not (.any [.onAttribute "room" .equal (.string "hall")])).verdict c = .holds) := by
  have keyed : ∀ c, .insert c ∈ lamps → c.Keyed := by
    intro c hc
    simp only [lamps, List.mem_cons, Change.insert.injEq, reduceCtorEq, List.not_mem_nil,
      or_false] at hc
    rcases hc with rfl | rfl | rfl
    · exact ⟨Attributes.keyed_ofList _, Attributes.keyed_empty⟩
    · exact ⟨Attributes.keyed_ofList _, Attributes.keyed_ofList _⟩
    · exact ⟨Attributes.keyed_empty, Attributes.keyed_empty⟩
  exact ⟨keyed, by decide +kernel, (search_exact lamps keyed _).2.1⟩

/-! ## Attributes under other names -/

theorem Named.mem_list {d : Directory} (named : d.Named) {c : Component} :
    c ∈ d.list ↔ d.get? c.id = some c := by
  rw [list, SortedMap.mem_values]
  constructor
  · rintro ⟨id, hid⟩
    rwa [named id c hid]
  · intro h
    exact ⟨c.id, h⟩

theorem Named.list_ascending {d : Directory} (named : d.Named) :
    d.list.Pairwise fun a b => compare a.id b.id = .lt := by
  rw [list, SortedMap.values, List.pairwise_map]
  refine d.components.ascending.imp_of_mem fun {x y} hx hy hlt => ?_
  rw [named x.1 x.2 (SortedMap.mem_toList.mp hx), named y.1 y.2 (SortedMap.mem_toList.mp hy)]
  exact hlt

/-- Lists by name that have the same components are the same. -/
theorem eq_of_ascending {cs ds : List Component}
    (hcs : cs.Pairwise fun a b => compare a.id b.id = .lt)
    (hds : ds.Pairwise fun a b => compare a.id b.id = .lt) (h : ∀ c, c ∈ cs ↔ c ∈ ds) :
    cs = ds := by
  have irrefl : Std.Irrefl fun a b : Component => compare a.id b.id = .lt :=
    ⟨fun a ha => by simp at ha⟩
  have antisymm : Std.Antisymm fun a b : Component => compare a.id b.id = .lt :=
    ⟨fun a b hab hba => absurd (Std.TransCmp.lt_trans hab hba) (irrefl.irrefl a)⟩
  exact hcs.eq_of_mem_iff hds h

/-- Whether every search finds exactly the stored components of which the query holds. -/
def Exact (d : Directory) : Prop :=
  ∀ q : Query, d.search q = d.list.filter fun c => q.verdict c = .holds

/-- Searches are exact if and only if, in every stored component, no comparison can tell the
attributes of a name from the one that stands under it. -/
theorem Posted.exact_iff {d : Directory} (posted : d.Posted) :
    d.Exact ↔ ∀ c ∈ d.list, c.Faithful := by
  have named := posted.named
  constructor
  · intro exact c hc
    have stored : d.get? c.id = some c := named.mem_list.mp hc
    refine Postings.faithful_iff.mpr fun r hs => ?_
    have hfound : c ∈ d.search (.rule r) ↔ d.get? c.id = some c ∧ Postings.Lists r c := by
      refine named.mem_search (fun id => ?_) c
      rw [Query.search]
      exact contains_select_single posted hs id
    rw [exact (.rule r), List.mem_filter, decide_eq_true_eq, Query.verdict] at hfound
    constructor
    · intro lists
      exact (hfound.mpr ⟨stored, lists⟩).2
    · intro holds
      exact (hfound.mp ⟨hc, holds⟩).2
  · intro faithful q
    have agrees := posted.agrees fun id c h =>
      faithful c (SortedMap.mem_values.mpr ⟨id, h⟩)
    refine eq_of_ascending (named.search_ascending q) (named.list_ascending.filter _) fun c => ?_
    rw [named.mem_search (Query.contains_search agrees q), List.mem_filter, named.mem_list,
      decide_eq_true_eq]

end Directory

end Rendezvous
