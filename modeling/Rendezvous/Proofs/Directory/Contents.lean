import Rendezvous.Directory.Basic
import Rendezvous.Proofs.Collection.SortedSet
/-!
# The contents of a directory

What each operation of a directory does to `Directory.get?`. The operations that can be refused are
described by when they succeed (`Directory.insert_eq_ok`, `Directory.update_eq_ok`). Every component
is stored under its own name (`Directory.Named`), so an update leaves a component at its place.
-/

namespace Rendezvous

namespace Directory

/-- Whether every component is stored under its own name. -/
def Named (d : Directory) : Prop := ∀ id c, d.get? id = some c → c.id = id

theorem contains_eq_isSome (d : Directory) (id : ComponentId) :
    d.contains id = (d.get? id).isSome := rfl

theorem remove_fst (d : Directory) (id : ComponentId) : (d.remove id).1 = d.get? id := by
  unfold remove
  cases d.get? id <;> rfl

/-- There is nothing to remove where nothing is stored. -/
theorem remove_of_absent {d : Directory} {id : ComponentId} (h : d.get? id = none) :
    (d.remove id).2 = d := by
  simp only [remove, h]

theorem get?_remove (d : Directory) (id id' : ComponentId) :
    (d.remove id).2.get? id' = if id' = id then none else d.get? id' := by
  unfold remove
  cases hget : d.get? id with
  | none =>
    by_cases h : id' = id
    · rw [if_pos h, h, hget]
    · rw [if_neg h]
  | some c => exact SortedMap.get?_erase d.components id id'

theorem get?_place (d : Directory) (c : Component) (id : ComponentId) :
    (d.place c).get? id = if id = c.id then some c else d.get? id :=
  SortedMap.get?_insert d.components c.id id c

theorem insert_eq_ok {d d' : Directory} {c : Component} {previous : Option Component} :
    d.insert c = .ok (previous, d') ↔
      c.id.isBlank = false ∧ previous = d.get? c.id ∧ d' = (d.remove c.id).2.place c := by
  unfold insert
  split
  · next h => simp [h]
  · next h => simp [h, remove_fst, eq_comm]

theorem update_eq_ok {d d' : Directory} {id : ComponentId} {delta : Attributes} {mode : UpdateMode}
    {updated : Component} :
    d.update id delta mode = .ok (updated, d') ↔
      ∃ c, d.get? id = some c ∧ (∀ a ∈ delta.values, c.constant.contains a.name = false) ∧
        updated = c.update delta mode ∧ d' = (d.remove id).2.place updated := by
  unfold update
  cases hget : d.get? id with
  | none => simp
  | some c =>
    simp only [Option.some.injEq, exists_eq_left']
    split
    · next a hfind =>
      have hmem := List.mem_of_find?_eq_some hfind
      have hconstant := List.find?_some hfind
      simp only [reduceCtorEq, false_iff, not_and]
      intro hnone
      exact absurd hconstant (by simp [hnone a hmem])
    · next hfind =>
      rw [List.find?_eq_none] at hfind
      simp only [Except.ok.injEq, Prod.mk.injEq]
      constructor
      · rintro ⟨rfl, rfl⟩
        exact ⟨fun a ha => by simpa using hfind a ha, rfl, rfl⟩
      · rintro ⟨-, rfl, rfl⟩
        exact ⟨rfl, rfl⟩

theorem get?_insert {d d' : Directory} {c : Component} {previous : Option Component}
    (h : d.insert c = .ok (previous, d')) (id : ComponentId) :
    d'.get? id = if id = c.id then some c else d.get? id := by
  obtain ⟨-, -, rfl⟩ := insert_eq_ok.mp h
  rw [get?_place, get?_remove]
  split <;> rfl

theorem get?_update {d d' : Directory} (named : d.Named) {id : ComponentId} {delta : Attributes}
    {mode : UpdateMode} {updated : Component} (h : d.update id delta mode = .ok (updated, d'))
    (id' : ComponentId) : d'.get? id' = if id' = id then some updated else d.get? id' := by
  obtain ⟨c, hget, -, rfl, rfl⟩ := update_eq_ok.mp h
  have hid : (c.update delta mode).id = id := named id c hget
  rw [get?_place, get?_remove, hid]
  split <;> rfl

/-- An update makes nobody come or go. -/
theorem contains_update {d d' : Directory} (named : d.Named) {id : ComponentId}
    {delta : Attributes} {mode : UpdateMode} {updated : Component}
    (h : d.update id delta mode = .ok (updated, d')) (id' : ComponentId) :
    d'.contains id' = d.contains id' := by
  obtain ⟨c, hget, -⟩ := update_eq_ok.mp h
  rw [contains_eq_isSome, get?_update named h]
  split
  · next hid => rw [hid, contains_eq_isSome, hget]; rfl
  · rfl

theorem named_empty : (∅ : Directory).Named := by
  intro _ _ h
  cases h

theorem Named.remove {d : Directory} (named : d.Named) (id : ComponentId) :
    (d.remove id).2.Named := by
  intro id' c h
  rw [get?_remove] at h
  split at h
  · cases h
  · exact named id' c h

theorem Named.place {d : Directory} (named : d.Named) (c : Component) : (d.place c).Named := by
  intro id c' h
  rw [get?_place] at h
  split at h
  · next hid =>
    cases h
    exact hid.symm
  · exact named id c' h

theorem Named.insert {d d' : Directory} (named : d.Named) {c : Component}
    {previous : Option Component} (h : d.insert c = .ok (previous, d')) : d'.Named := by
  obtain ⟨-, -, rfl⟩ := insert_eq_ok.mp h
  exact (named.remove c.id).place c

theorem Named.update {d d' : Directory} (named : d.Named) {id : ComponentId} {delta : Attributes}
    {mode : UpdateMode} {updated : Component} (h : d.update id delta mode = .ok (updated, d')) :
    d'.Named := by
  obtain ⟨c, -, -, rfl, rfl⟩ := update_eq_ok.mp h
  exact (named.remove id).place _

end Directory

end Rendezvous
