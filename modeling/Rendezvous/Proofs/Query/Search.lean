import Rendezvous.Proofs.Collection.SortedSet
import Rendezvous.Query.Search
/-!
# Searching agrees with judging

A search combines sets of identifiers, a verdict combines judgements of one component. Over an index
that answers single rules rightly (`Index.Agrees`) the two are the same for queries of any shape
(`Query.contains_search`). The negations of a query are those of a closed world, which is what makes
a complement in the set of all identifiers the right answer to them.
-/

namespace Rendezvous

namespace Verdict

theorem and_eq_holds {v w : Verdict} : v.and w = holds ↔ v = holds ∧ w = holds := by
  cases v <;> cases w <;> decide

theorem or_eq_holds {v w : Verdict} : v.or w = holds ↔ v = holds ∨ w = holds := by
  cases v <;> cases w <;> decide

theorem and_eq_fails {v w : Verdict} : v.and w = fails ↔ v = fails ∨ w = fails := by
  cases v <;> cases w <;> decide

theorem or_eq_fails {v w : Verdict} : v.or w = fails ↔ v = fails ∧ w = fails := by
  cases v <;> cases w <;> decide

theorem complement_eq_holds {v : Verdict} : v.complement = holds ↔ v ≠ holds := by
  cases v <;> decide

/-- What has failed stays so, whatever else there is. -/
theorem foldl_and_fails (vs : List Verdict) : vs.foldl and fails = fails := by
  induction vs with
  | nil => rfl
  | cons v vs ih => simpa [and] using ih

/-- What holds stays so, whatever else there is. -/
theorem foldl_or_holds (vs : List Verdict) : vs.foldl or holds = holds := by
  induction vs with
  | nil => rfl
  | cons v vs ih => simpa [or] using ih

/-- That a conjunction stops at the first failure is no difference. -/
theorem allFrom_eq_foldl (sofar : Verdict) (vs : List Verdict) :
    allFrom sofar vs = vs.foldl and sofar := by
  induction vs generalizing sofar with
  | nil => rfl
  | cons v vs ih =>
    rw [allFrom, List.foldl_cons]
    split
    · next hfails => rw [hfails, foldl_and_fails]
    · exact ih _

/-- That a disjunction stops at the first that holds is no difference. -/
theorem anyFrom_eq_foldl (sofar : Verdict) (vs : List Verdict) :
    anyFrom sofar vs = vs.foldl or sofar := by
  induction vs generalizing sofar with
  | nil => rfl
  | cons v vs ih =>
    rw [anyFrom, List.foldl_cons]
    split
    · next hholds => rw [hholds, foldl_or_holds]
    · exact ih _

/-- A property that a combination has exactly if both parts have it. -/
theorem foldl_iff_forall {f : Verdict → Verdict → Verdict} {P : Verdict → Prop}
    (both : ∀ v w, P (f v w) ↔ P v ∧ P w) (sofar : Verdict) (vs : List Verdict) :
    P (vs.foldl f sofar) ↔ P sofar ∧ ∀ v ∈ vs, P v := by
  induction vs generalizing sofar with
  | nil => simp
  | cons v vs ih => rw [List.foldl_cons, ih, both, List.forall_mem_cons, and_assoc]

/-- A property that a combination has exactly if one of its parts has it. -/
theorem foldl_iff_exists {f : Verdict → Verdict → Verdict} {P : Verdict → Prop}
    (either : ∀ v w, P (f v w) ↔ P v ∨ P w) (sofar : Verdict) (vs : List Verdict) :
    P (vs.foldl f sofar) ↔ P sofar ∨ ∃ v ∈ vs, P v := by
  induction vs generalizing sofar with
  | nil => simp
  | cons v vs ih =>
    rw [List.foldl_cons, ih, either, or_assoc]
    simp only [List.mem_cons, exists_eq_or_imp]

/-- A conjunction holds exactly if each of its parts does. -/
theorem all_eq_holds {vs : List Verdict} : all vs = holds ↔ ∀ v ∈ vs, v = holds := by
  have parts := foldl_iff_forall (P := fun v => v = holds) (fun _ _ => and_eq_holds) holds vs
  rw [all, allFrom_eq_foldl]
  exact parts.trans (and_iff_right rfl)

/-- A conjunction fails exactly if one of its parts does. -/
theorem all_eq_fails {vs : List Verdict} : all vs = fails ↔ ∃ v ∈ vs, v = fails := by
  have parts := foldl_iff_exists (P := fun v => v = fails) (fun _ _ => and_eq_fails) holds vs
  rw [all, allFrom_eq_foldl]
  exact parts.trans (or_iff_right (by decide))

/-- A disjunction holds exactly if one of its parts does. -/
theorem any_eq_holds {vs : List Verdict} : any vs = holds ↔ ∃ v ∈ vs, v = holds := by
  have parts := foldl_iff_exists (P := fun v => v = holds) (fun _ _ => or_eq_holds) fails vs
  rw [any, anyFrom_eq_foldl]
  exact parts.trans (or_iff_right (by decide))

/-- A disjunction fails exactly if each of its parts does. -/
theorem any_eq_fails {vs : List Verdict} : any vs = fails ↔ ∀ v ∈ vs, v = fails := by
  have parts := foldl_iff_forall (P := fun v => v = fails) (fun _ _ => or_eq_fails) fails vs
  rw [any, anyFrom_eq_foldl]
  exact parts.trans (and_iff_right rfl)

end Verdict

/-- What an index has to know of the components that are stored. -/
structure Index.Agrees (index : Index) (stored : ComponentId → Option Component) : Prop where
  allIds : ∀ id, index.allIds.contains id = true ↔ ∃ c, stored id = some c
  select : ∀ r id, (index.select r).contains id = true ↔
    ∃ c, stored id = some c ∧ r.verdict c = .holds

namespace Query

/-- Induction over queries, with the hypothesis for each child of a node. -/
@[elab_as_elim]
theorem induction {motive : Query → Prop} (rule : ∀ r, motive (rule r))
    (all : ∀ qs, (∀ q ∈ qs, motive q) → motive (all qs))
    (any : ∀ qs, (∀ q ∈ qs, motive q) → motive (any qs))
    (not : ∀ q, motive q → motive (not q))
    (noneOf : ∀ qs, (∀ q ∈ qs, motive q) → motive (noneOf qs)) (q : Query) : motive q :=
  @Query.rec motive (fun qs => ∀ q ∈ qs, motive q) rule all any not noneOf
    (fun _ h => absurd h List.not_mem_nil)
    (fun _ _ hq hqs => List.forall_mem_cons.mpr ⟨hq, hqs⟩) q

theorem verdicts_eq_map (c : Component) (qs : List Query) :
    verdicts c qs = qs.map (verdict c) := by
  induction qs with
  | nil => simp [verdicts]
  | cons q qs ih => simp [verdicts, ih]

theorem verdict_all_eq (c : Component) (qs : List Query) :
    verdict c (all qs) = .all (qs.map (verdict c)) := by
  rw [verdict, verdicts_eq_map]

theorem verdict_any_eq (c : Component) (qs : List Query) :
    verdict c (any qs) = .any (qs.map (verdict c)) := by
  rw [verdict, verdicts_eq_map]

theorem verdict_noneOf_eq (c : Component) (qs : List Query) :
    verdict c (noneOf qs) = (Verdict.any (qs.map (verdict c))).complement := by
  rw [verdict, verdicts_eq_map]

theorem verdict_all {c : Component} {qs : List Query} :
    verdict c (all qs) = .holds ↔ ∀ q ∈ qs, verdict c q = .holds := by
  rw [verdict_all_eq, Verdict.all_eq_holds]
  exact List.forall_mem_map

theorem verdict_any {c : Component} {qs : List Query} :
    verdict c (any qs) = .holds ↔ ∃ q ∈ qs, verdict c q = .holds := by
  rw [verdict_any_eq, Verdict.any_eq_holds]
  simp

theorem verdict_not {c : Component} {q : Query} :
    verdict c (not q) = .holds ↔ verdict c q ≠ .holds := by
  rw [verdict, Verdict.complement_eq_holds]

theorem verdict_noneOf {c : Component} {qs : List Query} :
    verdict c (noneOf qs) = .holds ↔ ¬ ∃ q ∈ qs, verdict c q = .holds := by
  rw [verdict_noneOf_eq, Verdict.complement_eq_holds, ne_eq, Verdict.any_eq_holds]
  simp

/-- Narrowing meets the found set with every further one; that it stops at an empty set is no
difference. -/
theorem contains_narrow (index : Index) (qs : List Query) (found : SortedSet ComponentId)
    (id : ComponentId) :
    (narrow index found qs).contains id = true ↔
      found.contains id = true ∧ ∀ q ∈ qs, (search index q).contains id = true := by
  induction qs generalizing found with
  | nil => simp [narrow]
  | cons q qs ih =>
    rw [narrow]
    split
    · next hempty =>
      have hnone := SortedMap.isEmpty_iff.mp hempty id
      simp [hnone]
    · rw [ih, SortedSet.contains_inter, Bool.and_eq_true, List.forall_mem_cons, and_assoc]

theorem contains_widen (index : Index) (qs : List Query) (found : SortedSet ComponentId)
    (id : ComponentId) :
    (widen index found qs).contains id = true ↔
      found.contains id = true ∨ ∃ q ∈ qs, (search index q).contains id = true := by
  induction qs generalizing found with
  | nil => simp [widen]
  | cons q qs ih =>
    rw [widen, ih, SortedSet.contains_union, Bool.or_eq_true, or_assoc]
    simp only [List.mem_cons, exists_eq_or_imp]

theorem contains_search_any (index : Index) (qs : List Query) (id : ComponentId) :
    ((any qs).search index).contains id = true ↔
      ∃ q ∈ qs, (q.search index).contains id = true := by
  rw [search, contains_widen]
  exact or_iff_right (by simp)

theorem contains_search_not (index : Index) (q : Query) (id : ComponentId) :
    ((not q).search index).contains id = true ↔
      index.allIds.contains id = true ∧ ¬ (q.search index).contains id = true := by
  rw [search, SortedSet.contains_diff, Bool.and_eq_true, Bool.not_eq_true', Bool.not_eq_true]

theorem contains_search_noneOf (index : Index) (qs : List Query) (id : ComponentId) :
    ((noneOf qs).search index).contains id = true ↔
      index.allIds.contains id = true ∧ ¬ ∃ q ∈ qs, (q.search index).contains id = true := by
  rw [search, SortedSet.contains_diff, Bool.and_eq_true, Bool.not_eq_true', ← Bool.not_eq_true,
    ← contains_search_any, search]

section Agreement

variable {index : Index} {stored : ComponentId → Option Component}

/-- In a closed world the others are those of which it does not hold. -/
theorem exists_stored_not_iff {id : ComponentId} {P : Component → Prop} :
    ((∃ c, stored id = some c) ∧ ¬ ∃ c, stored id = some c ∧ P c) ↔
      ∃ c, stored id = some c ∧ ¬ P c := by
  constructor
  · rintro ⟨⟨c, hc⟩, hnot⟩
    exact ⟨c, hc, fun h => hnot ⟨c, hc, h⟩⟩
  · rintro ⟨c, hc, hnot⟩
    refine ⟨⟨c, hc⟩, ?_⟩
    rintro ⟨c', hc', h⟩
    rw [hc] at hc'
    cases hc'
    exact hnot h

theorem exists_found_iff {qs : List Query} {id : ComponentId}
    (h : ∀ q ∈ qs, (search index q).contains id = true ↔
      ∃ c, stored id = some c ∧ verdict c q = .holds) :
    (∃ q ∈ qs, (search index q).contains id = true) ↔
      ∃ c, stored id = some c ∧ ∃ q ∈ qs, verdict c q = .holds := by
  constructor
  · rintro ⟨q, hq, hfound⟩
    obtain ⟨c, hc, hv⟩ := (h q hq).mp hfound
    exact ⟨c, hc, q, hq, hv⟩
  · rintro ⟨c, hc, q, hq, hv⟩
    exact ⟨q, hq, (h q hq).mpr ⟨c, hc, hv⟩⟩

/-- Over an index that agrees with the stored components on every rule, a search finds exactly
those of which the query holds. -/
theorem contains_search (agrees : index.Agrees stored) (q : Query) (id : ComponentId) :
    (q.search index).contains id = true ↔ ∃ c, stored id = some c ∧ q.verdict c = .holds := by
  induction q using Query.induction with
  | rule r => simpa only [search, verdict] using agrees.select r id
  | all qs ih =>
    cases qs with
    | nil =>
      rw [search, agrees.allIds]
      simp [verdict_all]
    | cons q qs =>
      rw [search, contains_narrow]
      simp only [verdict_all, List.forall_mem_cons]
      constructor
      · rintro ⟨hq, hqs⟩
        obtain ⟨c, hc, hv⟩ := (ih q List.mem_cons_self).mp hq
        refine ⟨c, hc, hv, fun q' hq' => ?_⟩
        obtain ⟨c', hc', hv'⟩ := (ih q' (List.mem_cons_of_mem _ hq')).mp (hqs q' hq')
        rw [hc] at hc'
        cases hc'
        exact hv'
      · rintro ⟨c, hc, hv, hvs⟩
        exact ⟨(ih q List.mem_cons_self).mpr ⟨c, hc, hv⟩, fun q' hq' =>
          (ih q' (List.mem_cons_of_mem _ hq')).mpr ⟨c, hc, hvs q' hq'⟩⟩
  | any qs ih =>
    rw [contains_search_any]
    simp only [verdict_any]
    exact exists_found_iff ih
  | not q ih =>
    rw [contains_search_not, agrees.allIds, ih]
    simp only [verdict_not]
    exact exists_stored_not_iff
  | noneOf qs ih =>
    rw [contains_search_noneOf, agrees.allIds, exists_found_iff ih]
    simp only [verdict_noneOf]
    exact exists_stored_not_iff

end Agreement

end Query

end Rendezvous
