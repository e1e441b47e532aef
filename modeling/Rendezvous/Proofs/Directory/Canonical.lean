import Rendezvous.Proofs.Directory.Search
/-!
# The index is made of the descriptions alone

However a directory has come about, its index is what the descriptions in it give, and nothing of
earlier ones is left (`Directory.index_canonical`): a fresh directory that is given them in any
order has the same index. Only the shelf of a field may stay behind without values.

Two facts carry this. Who is under which key determines an index (`Postings.same_of_holders`),
because no bucket is without components and no attribute without values. And a change looks at one
description only and changes only that one (`Change.outcome`), so changes about different components
can be made in either order.
-/

namespace Rendezvous

namespace Shelf

theorem get?_of_isEmpty {s : Shelf} (h : s.isEmpty = true) (k : ValueKey) :
    s.buckets.get? k = none := by
  rw [eq_empty_of_isEmpty h]
  rfl

theorem isEmpty_put (s : Shelf) (b : Bucket) (filled : b.ids.isEmpty = false) :
    (s.put b filled).isEmpty = false := by
  cases h : (s.put b filled).isEmpty with
  | false => rfl
  | true =>
    have found := get?_put s b filled b.value.key
    rw [if_pos rfl, get?_of_isEmpty h] at found
    cases found

theorem isEmpty_add (id : ComponentId) (s : Shelf) (v : Value) : (s.add id v).isEmpty = false := by
  unfold add
  exact isEmpty_put s _ _

/-- A shelf with values has a bucket. -/
theorem exists_bucket {s : Shelf} (h : s.isEmpty = false) : ∃ k b, s.buckets.get? k = some b := by
  cases hentries : s.buckets.entries with
  | nil =>
    rw [isEmpty, hentries] at h
    cases h
  | cons e rest =>
    exact ⟨e.1, e.2, Dict.mem_entries.mp (hentries ▸ List.mem_cons_self)⟩

/-- Where the same components are found, there are the same buckets. -/
theorem get?_of_holders {s t : Shelf} (h : ∀ v, s.holders v = t.holders v) {k : ValueKey}
    {b : Bucket} (found : s.buckets.get? k = some b) : t.buckets.get? k = some b := by
  have hids : t.holders b.value = b.ids := by
    rw [← h, holders_of_get? found]
  have hkey : b.value.key = k := s.keyed k b found
  cases hget : t.buckets.get? b.value.key with
  | none =>
    -- Without a bucket nobody would be found, but there is no bucket that nobody is in.
    have filled := s.filled k b found
    rw [← hids, holders_of_absent hget] at filled
    cases filled
  | some b' =>
    have hvalue : b'.value = b.value := value_of_get? hget
    rw [← hvalue] at hids hget
    rw [holders_of_get? hget] at hids
    obtain ⟨value, ids⟩ := b
    obtain ⟨value', ids'⟩ := b'
    simp only at hvalue hids
    subst hvalue
    subst hids
    rw [← hkey]
    exact hget

theorem buckets_eq_of_holders {s t : Shelf} (h : ∀ v, s.holders v = t.holders v) (k : ValueKey) :
    s.buckets.get? k = t.buckets.get? k :=
  Option.ext fun _ => ⟨get?_of_holders h, get?_of_holders fun v => (h v).symm⟩

end Shelf

namespace Postings

/-- Whether only fields have the shelves of fields, and no attribute is without values. -/
structure Tidy (p : Postings) : Prop where
  fields : ∀ s shelf, p.fieldShelves.get? s = some shelf → s ∈ fields
  attributes : ∀ n shelf, p.attributeShelves.get? n = some shelf → shelf.isEmpty = false

theorem tidy_empty : (∅ : Postings).Tidy where
  fields _ _ h := by cases h
  attributes _ _ h := by cases h

theorem Tidy.insert_field {p : Postings} (tidy : p.Tidy) {s : Selector} (hs : s ∈ Postings.fields)
    (shelf : Shelf) : Tidy { p with fieldShelves := p.fieldShelves.insert s shelf } := by
  refine ⟨fun s' shelf' h => ?_, tidy.attributes⟩
  rw [Dict.get?_insert] at h
  split at h
  · next heq => exact heq ▸ hs
  · exact tidy.fields s' shelf' h

theorem Tidy.insert_attribute {p : Postings} (tidy : p.Tidy) (n : String) {shelf : Shelf}
    (filled : shelf.isEmpty = false) :
    Tidy { p with attributeShelves := p.attributeShelves.insert n shelf } := by
  refine ⟨tidy.fields, fun n' shelf' h => ?_⟩
  rw [Dict.get?_insert] at h
  split at h
  · cases h
    exact filled
  · exact tidy.attributes n' shelf' h

theorem Tidy.erase_attribute {p : Postings} (tidy : p.Tidy) (n : String) :
    Tidy { p with attributeShelves := p.attributeShelves.erase n } := by
  refine ⟨tidy.fields, fun n' shelf h => ?_⟩
  rw [Dict.get?_erase] at h
  split at h
  · cases h
  · exact tidy.attributes n' shelf h

theorem Tidy.add {p : Postings} (tidy : p.Tidy) (id : ComponentId) (key : Selector × Value) :
    (add id p key).Tidy := by
  obtain ⟨s, v⟩ := key
  cases s with
  | callback => exact ⟨tidy.fields, tidy.attributes⟩
  | service => exact ⟨tidy.fields, tidy.attributes⟩
  | «attribute» n => exact tidy.insert_attribute n (Shelf.isEmpty_add id _ v)
  | _ =>
    simp only [Postings.add]
    exact tidy.insert_field (by decide) _

theorem Tidy.remove {p : Postings} (tidy : p.Tidy) (id : ComponentId) (key : Selector × Value) :
    (remove id p key).Tidy := by
  obtain ⟨s, v⟩ := key
  cases s with
  | callback => exact ⟨tidy.fields, tidy.attributes⟩
  | service => exact ⟨tidy.fields, tidy.attributes⟩
  | «attribute» n =>
    simp only [Postings.remove]
    split
    · exact tidy.erase_attribute n
    · next hempty => exact tidy.insert_attribute n (Bool.eq_false_iff.mpr hempty)
  | _ =>
    simp only [Postings.remove]
    split
    · exact tidy
    · exact tidy.insert_field (by decide) _

theorem Tidy.addAll {p : Postings} (tidy : p.Tidy) (c : Component) : (p.addAll c).Tidy := by
  unfold Postings.addAll
  induction keysOf c generalizing p with
  | nil => exact tidy
  | cons key rest ih => exact ih (tidy.add c.id key)

theorem Tidy.removeAll {p : Postings} (tidy : p.Tidy) (c : Component) : (p.removeAll c).Tidy := by
  unfold Postings.removeAll
  induction keysOf c generalizing p with
  | nil => exact tidy
  | cons key rest ih => exact ih (tidy.remove c.id key)

/-- Whether two indexes have the same buckets on the same shelves. The shelf of a field may be there
without values or not be there. -/
structure Same (p q : Postings) : Prop where
  buckets : ∀ s k, (p.shelf s).buckets.get? k = (q.shelf s).buckets.get? k
  attributes : ∀ n, (p.attributeShelves.get? n).isSome = (q.attributeShelves.get? n).isSome

/-- Who is under which key determines an index. -/
theorem same_of_holders {p q : Postings} (tidy : p.Tidy) (tidy' : q.Tidy)
    (h : ∀ key, p.holders key = q.holders key) : p.Same q := by
  have buckets : ∀ s k, (p.shelf s).buckets.get? k = (q.shelf s).buckets.get? k :=
    fun s => Shelf.buckets_eq_of_holders fun v => h (s, v)
  -- The bucket of an attribute that has values is on the other side too.
  have present : ∀ {p q : Postings}, p.Tidy →
      (∀ s k, (p.shelf s).buckets.get? k = (q.shelf s).buckets.get? k) →
      ∀ n, (p.attributeShelves.get? n).isSome → (q.attributeShelves.get? n).isSome := by
    intro p q tidy buckets n hsome
    obtain ⟨shelf, hget⟩ := Option.isSome_iff_exists.mp hsome
    obtain ⟨k, b, hb⟩ := Shelf.exists_bucket (tidy.attributes n shelf hget)
    have hbucket := buckets (.attribute n) k
    simp only [Postings.shelf, hget, Option.getD_some, hb] at hbucket
    cases hget' : q.attributeShelves.get? n with
    | none =>
      rw [hget'] at hbucket
      cases hbucket
    | some shelf' => rfl
  exact ⟨buckets, fun n => Bool.eq_iff_iff.mpr
    ⟨present tidy buckets n, present tidy' (fun s k => (buckets s k).symm) n⟩⟩

end Postings

namespace Directory

/-! ## What every history keeps -/

/-- Whether the index is that of the stored components, without anything left over, and none of them
has a blank name. -/
structure Settled (d : Directory) : Prop where
  posted : d.Posted
  tidy : d.postings.Tidy
  filled : ∀ id c, d.get? id = some c → c.id.isBlank = false

theorem settled_empty : (∅ : Directory).Settled where
  posted := posted_empty
  tidy := Postings.tidy_empty
  filled _ _ h := by cases h

theorem tidy_remove {d : Directory} (tidy : d.postings.Tidy) (id : ComponentId) :
    (d.remove id).2.postings.Tidy := by
  cases hget : d.get? id with
  | none =>
    rw [remove_of_absent hget]
    exact tidy
  | some c =>
    have hpostings : (d.remove id).2.postings = d.postings.removeAll c := by
      simp only [remove, hget]
    rw [hpostings]
    exact tidy.removeAll c

theorem Settled.remove {d : Directory} (settled : d.Settled) (id : ComponentId) :
    (d.remove id).2.Settled where
  posted := settled.posted.remove id
  tidy := tidy_remove settled.tidy id
  filled id' c h := by
    rw [get?_remove] at h
    split at h
    · cases h
    · exact settled.filled id' c h

theorem Settled.supplant {d : Directory} (settled : d.Settled) {c : Component}
    (filled : c.id.isBlank = false) : ((d.remove c.id).2.place c).Settled where
  posted := settled.posted.supplant c
  tidy := (tidy_remove settled.tidy c.id).addAll c
  filled id c' h := by
    rw [get?_place] at h
    split at h
    · cases h
      exact filled
    · exact (settled.remove c.id).filled id c' h

theorem Settled.apply {d : Directory} (settled : d.Settled) (change : Change) :
    (d.apply change).Settled := by
  rcases d.apply_cases change with h | ⟨c, previous, d', -, hinsert, h⟩ | ⟨id, -, h⟩ |
    ⟨id, delta, mode, updated, d', -, hupdate, h⟩
  · rw [h]
    exact settled
  · obtain ⟨filled, -, rfl⟩ := insert_eq_ok.mp hinsert
    rw [h]
    exact settled.supplant filled
  · rw [h]
    exact settled.remove id
  · obtain ⟨c, hget, -, rfl, rfl⟩ := update_eq_ok.mp hupdate
    have hid : (c.update delta mode).id = id := settled.posted.named id c hget
    have supplanted := settled.supplant (c := c.update delta mode) (settled.filled id c hget)
    rw [hid] at supplanted
    rw [h]
    exact supplanted

theorem Settled.applyAll {d : Directory} (settled : d.Settled) (changes : List Change) :
    (changes.foldl Directory.apply d).Settled := by
  induction changes generalizing d with
  | nil => exact settled
  | cons change rest ih => exact ih (settled.apply change)

/-- The index is that of the stored components through every history. -/
theorem settled_after (changes : List Change) : (after changes).Settled :=
  settled_empty.applyAll changes

/-- The descriptions determine the index. -/
theorem Settled.same {d d' : Directory} (settled : d.Settled) (settled' : d'.Settled)
    (h : ∀ id, d.get? id = d'.get? id) : d.postings.Same d'.postings := by
  refine Postings.same_of_holders settled.tidy settled'.tidy fun key => ?_
  refine SortedSet.ext_contains fun id => Bool.eq_iff_iff.mpr ?_
  rw [settled.posted.holders, settled'.posted.holders, h]

/-- The component that a change is about. -/
def Change.id : Change → ComponentId
  | .insert c => c.id
  | .remove id => id
  | .update id _ _ => id

/-- What a change answers. -/
inductive Answer
  | previous (c : Option Component)
  | updated (c : Component)
  | refused (e : DirectoryError)

/-- What a directory answers to a change. -/
def answer (d : Directory) : Change → Answer
  | .insert c =>
    match d.insert c with
    | .ok (previous, _) => .previous previous
    | .error e => .refused e
  | .remove id => .previous (d.remove id).1
  | .update id delta mode =>
    match d.update id delta mode with
    | .ok (updated, _) => .updated updated
    | .error e => .refused e

/-- What a change answers, and what it makes of the one description that it is about. -/
def Change.outcome (stored : Option Component) : Change → Answer × Option Component
  | .insert c =>
    if c.id.isBlank then (.refused (.invalidDescription "component id must not be empty"), stored)
    else (.previous stored, some c)
  | .remove _ => (.previous stored, none)
  | .update id delta mode =>
    match stored with
    | none => (.refused (.componentNotFound id), none)
    | some c =>
      match delta.values.find? fun a => c.constant.contains a.name with
      | some a => (.refused (.constantAttribute id a.name), some c)
      | none => (.updated (c.update delta mode), some (c.update delta mode))

/-- A change answers and does what its outcome for the one description says, and nothing else. -/
theorem answer_eq {d : Directory} (named : d.Named) (x : Change) :
    d.answer x = (x.outcome (d.get? x.id)).1 ∧
      ∀ id, (d.apply x).get? id =
        if id = x.id then (x.outcome (d.get? x.id)).2 else d.get? id := by
  -- What stays as it is stays so for the component that the change is about too.
  have kept : ∀ id, d.get? id = if id = x.id then d.get? x.id else d.get? id := by
    intro id
    by_cases hid : id = x.id
    · rw [if_pos hid, hid]
    · rw [if_neg hid]
  cases x with
  | insert c =>
    cases hblank : c.id.isBlank with
    | true =>
      have hinsert : d.insert c =
          .error (.invalidDescription "component id must not be empty") := by
        rw [Directory.insert, if_pos hblank]
      simp only [answer, apply, Change.outcome, hinsert, hblank, if_true, true_and]
      exact kept
    | false =>
      have hinsert : d.insert c = .ok (d.get? c.id, (d.remove c.id).2.place c) :=
        insert_eq_ok.mpr ⟨hblank, rfl, rfl⟩
      simp only [answer, apply_insert hinsert, Change.outcome, Change.id, hinsert, hblank,
        Bool.false_eq_true, if_false, true_and]
      exact get?_insert hinsert
  | remove id' =>
    simp only [answer, remove_fst, Change.outcome, Change.id, true_and]
    exact get?_remove d id'
  | update id' delta mode =>
    simp only [Change.id] at kept
    cases hget : d.get? id' with
    | none =>
      have hupdate : d.update id' delta mode = .error (.componentNotFound id') := by
        simp only [Directory.update, hget]
      rw [hget] at kept
      simp only [answer, apply, Change.outcome, Change.id, hupdate, hget, true_and]
      exact kept
    | some c =>
      rw [hget] at kept
      cases hfind : delta.values.find? fun a => c.constant.contains a.name with
      | some a =>
        have hupdate : d.update id' delta mode = .error (.constantAttribute id' a.name) := by
          simp only [Directory.update, hget, hfind]
        simp only [answer, apply, Change.outcome, Change.id, hupdate, hget, hfind, true_and]
        exact kept
      | none =>
        have hupdate : d.update id' delta mode =
            .ok (c.update delta mode, (d.remove id').2.place (c.update delta mode)) := by
          simp only [Directory.update, hget, hfind]
        simp only [answer, apply_update hupdate, Change.outcome, Change.id, hupdate, hget, hfind,
          true_and]
        exact get?_update named hupdate

/-- Components of different names are all stored when they are inserted. -/
theorem get?_insertAll {cs : List Component} (distinct : (cs.map Component.id).Nodup)
    (filled : ∀ c ∈ cs, c.id.isBlank = false) (d : Directory) (id : ComponentId) (c : Component) :
    ((cs.map .insert).foldl apply d).get? id = some c ↔
      (c ∈ cs ∧ c.id = id) ∨ (id ∉ cs.map Component.id ∧ d.get? id = some c) := by
  induction cs generalizing d with
  | nil => simp
  | cons c' rest ih =>
    obtain ⟨hfresh, hrest⟩ := List.nodup_cons.mp distinct
    have hinsert : d.insert c' = .ok (d.get? c'.id, (d.remove c'.id).2.place c') :=
      insert_eq_ok.mpr ⟨filled c' List.mem_cons_self, rfl, rfl⟩
    have hget := get?_insert hinsert id
    rw [← apply_insert hinsert] at hget
    have hstep := ih hrest (fun c hc => filled c (List.mem_cons_of_mem _ hc)) (d.apply (.insert c'))
    rw [List.map_cons, List.foldl_cons, hstep, hget, List.map_cons, List.mem_cons, List.mem_cons]
    by_cases hid : id = c'.id
    · -- Whoever comes after has another name and does not take the place.
      subst hid
      rw [if_pos rfl, Option.some.injEq]
      constructor
      · rintro (⟨hc, heq⟩ | ⟨-, rfl⟩)
        · exact .inl ⟨.inr hc, heq⟩
        · exact .inl ⟨.inl rfl, rfl⟩
      · rintro (⟨rfl | hc, heq⟩ | ⟨hother, -⟩)
        · exact .inr ⟨hfresh, rfl⟩
        · exact .inl ⟨hc, heq⟩
        · exact absurd (.inl rfl) hother
    · rw [if_neg hid]
      constructor
      · rintro (⟨hc, heq⟩ | ⟨hother, hc⟩)
        · exact .inl ⟨.inr hc, heq⟩
        · exact .inr ⟨not_or.mpr ⟨hid, hother⟩, hc⟩
      · rintro (⟨rfl | hc, heq⟩ | ⟨hother, hc⟩)
        · exact absurd heq.symm hid
        · exact .inl ⟨hc, heq⟩
        · exact .inr ⟨(not_or.mp hother).2, hc⟩

end Directory

end Rendezvous
