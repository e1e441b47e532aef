import Rendezvous.Proofs.Query.Search
/-!
# The algebra of queries

Over any index whose rules select from the collection (`Index.Within`), a search combines sets as
the nodes of the query say: intersection for all, union for some, complement for the negations. That
a search stops at an empty intermediate set never shows, and nothing is asked of what the rules
select.

What a query says depends on neither the order nor the number of the children of a node, nor on how
conjunctions are grouped in conjunctions and disjunctions in disjunctions, anywhere in the tree
(`Query.Rearranged`). This holds of whatever is determined node by node in this way
(`Query.Compositional`), which are both the set that is found and the verdict on one component, with
each of its three values.
-/

namespace Rendezvous

namespace Verdict

/-- A verdict is known from whether it holds and whether it fails. -/
theorem eq_of_iff {v w : Verdict} (hholds : v = holds ↔ w = holds)
    (hfails : v = fails ↔ w = fails) : v = w := by
  cases v <;> cases w <;> simp_all

/-- A conjunction depends only on which verdicts are among its parts. -/
theorem all_congr {vs ws : List Verdict} (h : ∀ v, v ∈ vs ↔ v ∈ ws) : all vs = all ws := by
  refine eq_of_iff ?_ ?_
  · simp only [all_eq_holds, h]
  · simp only [all_eq_fails, h]

theorem any_congr {vs ws : List Verdict} (h : ∀ v, v ∈ vs ↔ v ∈ ws) : any vs = any ws := by
  refine eq_of_iff ?_ ?_
  · simp only [any_eq_holds, h]
  · simp only [any_eq_fails, h]

/-- The parts of a conjunction in a conjunction are parts of the whole. -/
theorem all_flatten (before parts after : List Verdict) :
    all (before ++ all parts :: after) = all (before ++ parts ++ after) := by
  refine eq_of_iff ?_ ?_
  · simp only [all_eq_holds, List.forall_mem_append, List.forall_mem_cons, and_assoc]
  · simp only [all_eq_fails, List.mem_append, List.mem_cons, or_and_right, exists_or,
      exists_eq_left, or_assoc]

theorem any_flatten (before parts after : List Verdict) :
    any (before ++ any parts :: after) = any (before ++ parts ++ after) := by
  refine eq_of_iff ?_ ?_
  · simp only [any_eq_holds, List.mem_append, List.mem_cons, or_and_right, exists_or,
      exists_eq_left, or_assoc]
  · simp only [any_eq_fails, List.forall_mem_append, List.forall_mem_cons, and_assoc]

end Verdict

/-- Whether every rule selects components of the collection only. -/
def Index.Within (index : Index) : Prop :=
  ∀ r id, (index.select r).contains id = true → index.allIds.contains id = true

namespace Query

/-! ## Searching by sets -/

section Search

variable {index : Index}

/-- Only components of the collection are found. -/
theorem contains_allIds_of_search (within : index.Within) {q : Query} {id : ComponentId}
    (h : (q.search index).contains id = true) : index.allIds.contains id = true := by
  induction q using Query.induction with
  | rule r =>
    rw [search] at h
    exact within r id h
  | all qs ih =>
    cases qs with
    | nil =>
      rw [search] at h
      exact h
    | cons q qs =>
      rw [search, contains_narrow] at h
      exact ih q List.mem_cons_self h.1
  | any qs ih =>
    obtain ⟨q, hq, hfound⟩ := (contains_search_any index qs id).mp h
    exact ih q hq hfound
  | not q _ => exact ((contains_search_not index q id).mp h).1
  | noneOf qs _ => exact ((contains_search_noneOf index qs id).mp h).1

theorem contains_search_all (within : index.Within) (qs : List Query) (id : ComponentId) :
    ((all qs).search index).contains id = true ↔
      index.allIds.contains id = true ∧ ∀ q ∈ qs, (q.search index).contains id = true := by
  cases qs with
  | nil =>
    rw [search]
    simp
  | cons q qs =>
    rw [search, contains_narrow, List.forall_mem_cons]
    -- What the first child finds is in the collection anyway.
    exact (and_iff_right_of_imp fun h => contains_allIds_of_search within h.1).symm

theorem search_noneOf_eq_not (index : Index) (qs : List Query) :
    (noneOf qs).search index = (not (any qs)).search index := by
  refine SortedSet.ext_contains fun id => Bool.eq_iff_iff.mpr ?_
  rw [contains_search_noneOf, contains_search_not, contains_search_any]

theorem search_noneOf_eq_all (within : index.Within) (qs : List Query) :
    (noneOf qs).search index = (all (qs.map not)).search index := by
  refine SortedSet.ext_contains fun id => Bool.eq_iff_iff.mpr ?_
  rw [contains_search_noneOf, contains_search_all within, List.forall_mem_map]
  refine and_congr_right fun known => ?_
  simp only [contains_search_not, known, true_and, not_exists, not_and]

theorem search_not_not (within : index.Within) (q : Query) :
    (not (not q)).search index = q.search index := by
  refine SortedSet.ext_contains fun id => Bool.eq_iff_iff.mpr ?_
  rw [contains_search_not, contains_search_not]
  constructor
  · rintro ⟨known, hnot⟩
    exact Decidable.of_not_not fun hmissing => hnot ⟨known, hmissing⟩
  · intro h
    exact ⟨contains_allIds_of_search within h, fun hnot => hnot.2 h⟩

end Search

/-! ## Rearranging a tree -/

/-- The nodes that have any number of children. -/
inductive Junction : (List Query → Query) → Prop
  | all : Junction all
  | any : Junction any
  | noneOf : Junction noneOf

/-- Whether the children of an inner node can as well stand under the outer one. -/
inductive Absorbs : (List Query → Query) → (List Query → Query) → Prop
  | all : Absorbs all all
  | any : Absorbs any any
  | noneOf : Absorbs noneOf any

/-- Whether two trees differ, at any depth, only in the order of children, in how often a child
stands under a node, and in the grouping of conjunctions and disjunctions. -/
inductive Rearranged : Query → Query → Prop
  | refl (q : Query) : Rearranged q q
  | symm {p q : Query} (h : Rearranged p q) : Rearranged q p
  | trans {p q r : Query} (h : Rearranged p q) (h' : Rearranged q r) : Rearranged p r
  /-- The same children, in any order, each as often as may be. -/
  | members {node : List Query → Query} (junction : Junction node) {ps qs : List Query}
      (same : ∀ q, q ∈ ps ↔ q ∈ qs) : Rearranged (node ps) (node qs)
  | flatten {outer inner : List Query → Query} (absorbs : Absorbs outer inner)
      (before parts after : List Query) :
      Rearranged (outer (before ++ inner parts :: after)) (outer (before ++ parts ++ after))
  | child {node : List Query → Query} (junction : Junction node) (before after : List Query)
      {p q : Query} (h : Rearranged p q) :
      Rearranged (node (before ++ p :: after)) (node (before ++ q :: after))
  | not {p q : Query} (h : Rearranged p q) : Rearranged (not p) (not q)

/-- Whether what is said of a node is determined by which things are said of its children, and is
the same when a node is merged into the one above. -/
structure Compositional {α : Type} (f : Query → α) : Prop where
  members : ∀ {node : List Query → Query}, Junction node → ∀ {ps qs : List Query},
    (∀ a, a ∈ ps.map f ↔ a ∈ qs.map f) → f (node ps) = f (node qs)
  flatten : ∀ {outer inner : List Query → Query}, Absorbs outer inner →
    ∀ before parts after : List Query,
      f (outer (before ++ inner parts :: after)) = f (outer (before ++ parts ++ after))
  not : ∀ {p q : Query}, f p = f q → f (not p) = f (not q)

/-- Of rearranged trees the same is said. -/
theorem Compositional.eq_of_rearranged {α : Type} {f : Query → α} (compositional : Compositional f)
    {p q : Query} (h : Rearranged p q) : f p = f q := by
  induction h with
  | refl q => rfl
  | symm _ ih => exact ih.symm
  | trans _ _ ih ih' => exact ih.trans ih'
  | members junction same =>
    refine compositional.members junction fun a => ?_
    simp only [List.mem_map, same]
  | flatten absorbs before parts after => exact compositional.flatten absorbs before parts after
  | child junction before after _ ih =>
    refine compositional.members junction fun a => ?_
    simp only [List.map_append, List.map_cons, ih]
  | not _ ih => exact compositional.not ih

theorem compositional_verdict (c : Component) : Compositional (verdict c) where
  members junction _ _ same := by
    cases junction with
    | all => rw [verdict_all_eq, verdict_all_eq, Verdict.all_congr same]
    | any => rw [verdict_any_eq, verdict_any_eq, Verdict.any_congr same]
    | noneOf => rw [verdict_noneOf_eq, verdict_noneOf_eq, Verdict.any_congr same]
  flatten absorbs before parts after := by
    cases absorbs with
    | all =>
      simp only [verdict_all_eq, List.map_append, List.map_cons]
      exact Verdict.all_flatten _ _ _
    | any =>
      simp only [verdict_any_eq, List.map_append, List.map_cons]
      exact Verdict.any_flatten _ _ _
    | noneOf =>
      simp only [verdict_noneOf_eq, verdict_any_eq, List.map_append, List.map_cons,
        Verdict.any_flatten]
  not h := by rw [verdict, verdict, h]

/-- What all or some of the children find is known from the sets that they find. -/
theorem forall_and_exists_found {index : Index} {ps qs : List Query}
    (same : ∀ s, s ∈ ps.map (search index) ↔ s ∈ qs.map (search index)) (id : ComponentId) :
    ((∀ q ∈ ps, (q.search index).contains id = true) ↔
      ∀ q ∈ qs, (q.search index).contains id = true) ∧
    ((∃ q ∈ ps, (q.search index).contains id = true) ↔
      ∃ q ∈ qs, (q.search index).contains id = true) := by
  have forall_sets (qs : List Query) : (∀ q ∈ qs, (q.search index).contains id = true) ↔
      ∀ s ∈ qs.map (search index), s.contains id = true := by
    simp only [List.forall_mem_map]
  have exists_set (qs : List Query) : (∃ q ∈ qs, (q.search index).contains id = true) ↔
      ∃ s ∈ qs.map (search index), s.contains id = true := by
    constructor
    · rintro ⟨q, hq, hfound⟩
      exact ⟨_, List.mem_map_of_mem hq, hfound⟩
    · rintro ⟨s, hs, hfound⟩
      obtain ⟨q, hq, rfl⟩ := List.mem_map.mp hs
      exact ⟨q, hq, hfound⟩
  simp only [forall_sets, exists_set, same, and_self]

theorem compositional_search {index : Index} (within : index.Within) :
    Compositional (search index) where
  members junction _ _ same := by
    refine SortedSet.ext_contains fun id => Bool.eq_iff_iff.mpr ?_
    obtain ⟨hall, hany⟩ := forall_and_exists_found same id
    cases junction with
    | all => rw [contains_search_all within, contains_search_all within, hall]
    | any => rw [contains_search_any, contains_search_any, hany]
    | noneOf => rw [contains_search_noneOf, contains_search_noneOf, hany]
  flatten absorbs before parts after := by
    refine SortedSet.ext_contains fun id => Bool.eq_iff_iff.mpr ?_
    cases absorbs with
    | all =>
      simp only [contains_search_all within, List.forall_mem_append, List.forall_mem_cons]
      -- The inner node asks once more for what is in the collection.
      refine and_congr_right fun known => ?_
      simp only [known, true_and, and_assoc]
    | any =>
      simp only [contains_search_any, List.mem_append, List.mem_cons, or_and_right, exists_or,
        exists_eq_left, or_assoc]
    | noneOf =>
      simp only [contains_search_noneOf, contains_search_any, List.mem_append, List.mem_cons,
        or_and_right, exists_or, exists_eq_left, or_assoc]
  not {p q} h := by
    refine SortedSet.ext_contains fun id => Bool.eq_iff_iff.mpr ?_
    rw [contains_search_not, contains_search_not, h]

/-- Over any index whose rules select from the collection, a search is a boolean combination of what
the children of a node find: their intersection within the collection, their union, or a complement
in the collection, where two complements cancel. Of trees that are rearranged the same is found, and
they have the same verdict on every component. -/
theorem search_boolean {index : Index} (within : index.Within) :
    (∀ qs id, ((all qs).search index).contains id = true ↔
      index.allIds.contains id = true ∧ ∀ q ∈ qs, (q.search index).contains id = true) ∧
    (∀ qs id, ((any qs).search index).contains id = true ↔
      ∃ q ∈ qs, (q.search index).contains id = true) ∧
    (∀ q id, ((not q).search index).contains id = true ↔
      index.allIds.contains id = true ∧ ¬ (q.search index).contains id = true) ∧
    (∀ qs, (noneOf qs).search index = (not (any qs)).search index ∧
      (noneOf qs).search index = (all (qs.map not)).search index) ∧
    (∀ q, (not (not q)).search index = q.search index) ∧
    ∀ p q, Rearranged p q →
      p.search index = q.search index ∧ ∀ c, p.verdict c = q.verdict c := by
  refine ⟨contains_search_all within, contains_search_any index, contains_search_not index,
    fun qs => ⟨search_noneOf_eq_not index qs, search_noneOf_eq_all within qs⟩,
    search_not_not within, fun p q h => ⟨?_, fun c => ?_⟩⟩
  · exact (compositional_search within).eq_of_rearranged h
  · exact (compositional_verdict c).eq_of_rearranged h

/-- Two lamps, of which every rule selects the first, whatever it asks. -/
def lampIndex : Index :=
  ⟨SortedSet.ofList [⟨"a"⟩, ⟨"b"⟩], fun _ => SortedSet.ofList [⟨"a"⟩]⟩

/-- A disjunction under a negation is merged into it, and what then stands there twice is left out:
the second lamp is found either way. -/
theorem search_boolean_lamps :
    let lit := onAttribute "lit" .equal (.boolean true)
    let dim := onAttribute "level" .less (.integer 3)
    lampIndex.Within ∧ Rearranged (noneOf [any [lit, dim], lit]) (noneOf [dim, lit]) ∧
      ((noneOf [any [lit, dim], lit]).search lampIndex).members = [⟨"b"⟩] ∧
      (noneOf [any [lit, dim], lit]).search lampIndex = (noneOf [dim, lit]).search lampIndex ∧
      ∀ c, (noneOf [any [lit, dim], lit]).verdict c = (noneOf [dim, lit]).verdict c := by
  intro lit dim
  have within : lampIndex.Within := by
    intro r id h
    have hid : id ∈ [⟨"a"⟩] := (SortedSet.contains_ofList _ _).mp h
    exact (SortedSet.contains_ofList _ _).mpr
      (List.mem_cons.mpr (.inl (List.mem_singleton.mp hid)))
  have rearranged : Rearranged (noneOf [any [lit, dim], lit]) (noneOf [dim, lit]) := by
    refine .trans (.flatten .noneOf [] [lit, dim] [lit]) (.members .noneOf fun q => ?_)
    simp [or_comm]
  have same := (search_boolean within).2.2.2.2.2 _ _ rearranged
  exact ⟨within, rearranged, by decide +kernel, same.1, same.2⟩

end Query

end Rendezvous
