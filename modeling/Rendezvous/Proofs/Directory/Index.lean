import Rendezvous.Proofs.Directory.Contents
import Rendezvous.Proofs.Directory.Postings
import Rendezvous.Proofs.Query.Search
/-!
# The index of a directory

A posting lists exactly the components that are indexed under its key. `Directory.Posted` says so
for the whole index, and every change of a directory keeps it. Where the attributes of the stored
components stand under their own names (`Directory.Indexed`), `Directory.select` is shown to answer
every rule as each description by itself does (`Directory.Indexed.agrees`).
-/

namespace Rendezvous

namespace Comparison

/-- Nothing but the same text is equal to a text. -/
theorem evaluate_equal_string {v : Value} {s : String} :
    equal.evaluate v (.string s) = .holds ↔ v = .string s := by
  cases v with
  | string t =>
    by_cases h : t = s
    · simp [evaluate, order?, admits, Verdict.ofBool, h]
    · simp [evaluate, order?, admits, Verdict.ofBool, h]
  | integer i => simp [evaluate, order?, Value.asFloat?]
  | float x => simp [evaluate, order?, Value.asFloat?]
  | boolean b => simp [evaluate, order?, Value.asFloat?]

/-- Nothing but the same truth value is equal to a truth value. -/
theorem evaluate_equal_boolean {v : Value} {b : Bool} :
    equal.evaluate v (.boolean b) = .holds ↔ v = .boolean b := by
  cases v with
  | boolean a => cases a <;> cases b <;> decide
  | string t => simp [evaluate, order?, Value.asFloat?]
  | integer i => simp [evaluate, order?, Value.asFloat?]
  | float x => simp [evaluate, order?, Value.asFloat?]

end Comparison

namespace Directory

/-- The index is that of the stored components, each of which is stored under its own name. -/
structure Posted (d : Directory) : Prop where
  named : d.Named
  holders : ∀ key id, (d.postings.holders key).contains id = true ↔
    ∃ c, d.get? id = some c ∧ key ∈ Postings.keysOf c

theorem posted_empty : (∅ : Directory).Posted where
  named := named_empty
  holders key id := by
    constructor
    · intro h
      rw [show (∅ : Directory).postings = ∅ from rfl, Postings.holders_empty] at h
      cases h
    · rintro ⟨c, hc, -⟩
      cases hc

/-- The keys that go with a component are those that came with it. -/
theorem Posted.remove {d : Directory} (posted : d.Posted) (id : ComponentId) :
    (d.remove id).2.Posted where
  named := posted.named.remove id
  holders key id' := by
    simp only [get?_remove]
    cases hget : d.get? id with
    | none =>
      rw [remove_of_absent hget, posted.holders]
      by_cases h : id' = id
      · simp [h, hget]
      · simp [h]
    | some c =>
      have hpostings : (d.remove id).2.postings = d.postings.removeAll c := by
        simp [Directory.remove, hget]
      rw [hpostings, Postings.contains_removeAll, posted.holders, posted.named id c hget]
      by_cases h : id' = id
      · subst h
        simp [hget]
      · simp [h]

/-- A component is placed where there is none of its name, so no key of another description
remains. -/
theorem Posted.place {d : Directory} (posted : d.Posted) {c : Component}
    (vacant : d.get? c.id = none) : (d.place c).Posted where
  named := posted.named.place c
  holders key id := by
    have hpostings : (d.place c).postings = d.postings.addAll c := rfl
    rw [hpostings, Postings.contains_addAll, posted.holders]
    simp only [get?_place]
    by_cases h : id = c.id
    · subst h
      simp [vacant]
    · simp [h]

/-- A component takes the place of the one of its name. -/
theorem Posted.supplant {d : Directory} (posted : d.Posted) (c : Component) :
    ((d.remove c.id).2.place c).Posted :=
  (posted.remove c.id).place (by rw [get?_remove, if_pos rfl])

/-- The index is that of the stored components, whose attributes stand under their own names. -/
structure Indexed (d : Directory) : Prop where
  named : d.Named
  keyed : ∀ id c, d.get? id = some c → c.Keyed
  holders : ∀ key id, (d.postings.holders key).contains id = true ↔
    ∃ c, d.get? id = some c ∧ key ∈ Postings.keysOf c

theorem Indexed.posted {d : Directory} (indexed : d.Indexed) : d.Posted :=
  ⟨indexed.named, indexed.holders⟩

theorem Posted.indexed {d : Directory} (posted : d.Posted)
    (keyed : ∀ id c, d.get? id = some c → c.Keyed) : d.Indexed :=
  ⟨posted.named, keyed, posted.holders⟩

theorem indexed_empty : (∅ : Directory).Indexed :=
  posted_empty.indexed fun _ _ h => by cases h

theorem Indexed.remove {d : Directory} (indexed : d.Indexed) (id : ComponentId) :
    (d.remove id).2.Indexed := by
  refine (indexed.posted.remove id).indexed fun id' c h => ?_
  rw [get?_remove] at h
  split at h
  · cases h
  · exact indexed.keyed id' c h

theorem Indexed.supplant {d : Directory} (indexed : d.Indexed) {c : Component} (keyed : c.Keyed) :
    ((d.remove c.id).2.place c).Indexed := by
  refine (indexed.posted.supplant c).indexed fun id c' h => ?_
  rw [get?_place] at h
  split at h
  · cases h
    exact keyed
  · exact (indexed.remove c.id).keyed id c' h

theorem Indexed.insert {d : Directory} (indexed : d.Indexed) {c : Component} (keyed : c.Keyed)
    {previous : Option Component} {d' : Directory} (h : d.insert c = .ok (previous, d')) :
    d'.Indexed := by
  obtain ⟨-, -, rfl⟩ := insert_eq_ok.mp h
  exact indexed.supplant keyed

theorem Indexed.update {d : Directory} (indexed : d.Indexed) {id : ComponentId}
    {delta : Attributes} {mode : UpdateMode} {updated : Component} {d' : Directory}
    (h : d.update id delta mode = .ok (updated, d')) : d'.Indexed := by
  obtain ⟨c, hget, -, rfl, rfl⟩ := update_eq_ok.mp h
  have hid : (c.update delta mode).id = id := indexed.named id c hget
  have supplanted := indexed.supplant ((indexed.keyed id c hget).update delta mode)
  rwa [hid] at supplanted

/-! ## Answering rules -/

theorem contains_allIds (d : Directory) (id : ComponentId) :
    d.allIds.contains id = true ↔ ∃ c, d.get? id = some c := by
  rw [allIds, SortedSet.contains_ofList, SortedMap.mem_keys, SortedMap.contains_iff]
  rfl

theorem contains_holders {d : Directory} (posted : d.Posted) {r : Rule} {id : ComponentId} :
    (∃ v, (d.postings.holders (r.selector, v)).contains id = true ∧
        r.comparison.evaluate v r.operand = .holds) ↔
      ∃ c, d.get? id = some c ∧ Postings.Lists r c := by
  simp only [posted.holders, Postings.Lists]
  constructor
  · rintro ⟨v, ⟨c, hc, hkey⟩, hv⟩
    exact ⟨c, hc, v, hkey, hv⟩
  · rintro ⟨c, hc, v, hkey, hv⟩
    exact ⟨v, ⟨c, hc, hkey⟩, hv⟩

/-- Of a text or a truth value the one posting under it has all that a scan would find. -/
theorem contains_holders_equal {d : Directory} (posted : d.Posted) {s : Selector} {operand : Value}
    (only : ∀ v, Comparison.equal.evaluate v operand = .holds ↔ v = operand) (id : ComponentId) :
    (d.postings.holders (s, operand)).contains id = true ↔
      ∃ c, d.get? id = some c ∧ Postings.Lists ⟨s, .equal, operand⟩ c := by
  rw [← contains_holders posted]
  simp only [only, exists_eq_right]

/-- On single values the index answers a rule with those that are under a value of which it
holds. -/
theorem contains_select_single {d : Directory} (posted : d.Posted) {r : Rule}
    (hs : Postings.isSingle r.selector = true) (id : ComponentId) :
    (d.select r).contains id = true ↔ ∃ c, d.get? id = some c ∧ Postings.Lists r c := by
  unfold select
  split
  · next hsel =>
    rw [hsel] at hs
    cases hs
  · next hsel =>
    rw [hsel] at hs
    cases hs
  · next hcomparison hoperand _ _ =>
    obtain ⟨selector, _, _⟩ := r
    cases hcomparison
    cases hoperand
    exact contains_holders_equal posted (fun _ => Comparison.evaluate_equal_string) id
  · next hcomparison hoperand _ _ =>
    obtain ⟨selector, _, _⟩ := r
    cases hcomparison
    cases hoperand
    exact contains_holders_equal posted (fun _ => Comparison.evaluate_equal_boolean) id
  · rw [Postings.contains_matching]
    exact contains_holders posted

theorem verdict_of_names {r : Rule} {c : Component} {names : SortedSet String}
    (h : r.selector.resolve c = .names names) :
    r.verdict c = r.comparison.evaluateMembership
      ((r.operand.asString?.map names.contains).getD false) r.operand := by
  unfold Rule.verdict
  generalize r.selector.resolve c = resolved at h ⊢
  subst h
  cases r.operand.asString? <;> rfl

/-- A rule on a set of names is answered from the holders of the name, or from all the others. -/
theorem contains_selectMembers {d : Directory} (posted : d.Posted) {r : Rule}
    (names : Component → SortedSet String) (resolves : ∀ c, r.selector.resolve c = .names (names c))
    (keys : ∀ c n, (r.selector, .string n) ∈ Postings.keysOf c ↔ (names c).contains n = true)
    (id : ComponentId) :
    (d.selectMembers r).contains id = true ↔ ∃ c, d.get? id = some c ∧ r.verdict c = .holds := by
  obtain ⟨selector, comparison, operand⟩ := r
  have hverdict : ∀ c, (⟨selector, comparison, operand⟩ : Rule).verdict c =
      comparison.evaluateMembership ((operand.asString?.map (names c).contains).getD false)
        operand :=
    fun c => verdict_of_names (resolves c)
  have hholders : ∀ n, (d.postings.holders (selector, .string n)).contains id = true ↔
      ∃ c, d.get? id = some c ∧ (names c).contains n = true := by
    intro n
    rw [posted.holders]
    simp only [keys]
  simp only [hverdict, selectMembers]
  cases operand with
  | string n =>
    cases comparison with
    | equal =>
      simp only [Value.asString?, Option.map_some, Option.getD_some,
        Comparison.evaluateMembership, hholders]
      refine exists_congr fun c => and_congr_right fun _ => ?_
      cases (names c).contains n <;> decide
    | different =>
      simp only [Value.asString?, Option.map_some, Option.getD_some,
        Comparison.evaluateMembership, SortedSet.contains_diff, Bool.and_eq_true, contains_allIds,
        Bool.not_eq_true', ← Bool.not_eq_true, hholders]
      rw [Query.exists_stored_not_iff]
      refine exists_congr fun c => and_congr_right fun _ => ?_
      cases (names c).contains n <;> decide
    | _ => simp [Value.asString?, Comparison.evaluateMembership]
  | _ => simp [Value.asString?, Comparison.evaluateMembership]

/-- The index answers every rule as the stored descriptions do if it does for their attributes. -/
theorem contains_select {d : Directory} (posted : d.Posted)
    (faithful : ∀ id c, d.get? id = some c → c.Faithful) (r : Rule) (id : ComponentId) :
    (d.select r).contains id = true ↔ ∃ c, d.get? id = some c ∧ r.verdict c = .holds := by
  cases hs : Postings.isSingle r.selector with
  | true =>
    rw [contains_select_single posted hs]
    refine exists_congr fun c => and_congr_right fun hc => ?_
    exact Postings.faithful_iff.mp (faithful id c hc) r hs
  | false =>
    have hselect : d.select r = d.selectMembers r := by
      obtain ⟨selector, _, _⟩ := r
      cases selector with
      | callback => rfl
      | service => rfl
      | _ => cases hs
    rw [hselect]
    obtain ⟨selector, comparison, operand⟩ := r
    cases selector with
    | callback =>
      exact contains_selectMembers posted Component.callbacks (fun _ => rfl)
        (fun _ _ => Postings.mem_keysOf_callback) id
    | service =>
      exact contains_selectMembers posted Component.services (fun _ => rfl)
        (fun _ _ => Postings.mem_keysOf_service) id
    | _ => cases hs

theorem Posted.agrees {d : Directory} (posted : d.Posted)
    (faithful : ∀ id c, d.get? id = some c → c.Faithful) : d.index.Agrees d.get? where
  allIds := contains_allIds d
  select := contains_select posted faithful

theorem Indexed.agrees {d : Directory} (indexed : d.Indexed) : d.index.Agrees d.get? :=
  indexed.posted.agrees fun id c h => (indexed.keyed id c h).faithful

end Directory

end Rendezvous
