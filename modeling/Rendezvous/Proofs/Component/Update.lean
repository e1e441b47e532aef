import Rendezvous.Proofs.Component.Codec
import Mathlib.Data.List.Induction
/-!
# Updates of a component

What is merged into attributes lies over them, so merging is associative (`Attributes.merge_merge`)
and several updates one after the other are one update (`Component.updated_eq`): what they bring
together, from the last one on that drops what is there (`Update.collapse`).

An update that brings no attribute of the name of a constant one (`Update.Spares`) can only uncover
constant attributes, when it drops those that hide them.
-/

namespace Rendezvous

namespace Attributes

theorem get?_put (as : Attributes) (a : Attribute) (name : String) :
    (as.put a).get? name = if name = a.name then some a else as.get? name :=
  SortedMap.get?_insert as a.name name a

/-- Attributes that are those of one set before those of another remain so when the same ones are
put in. -/
theorem get?_foldl_put {all front back : Attributes}
    (h : ∀ name, all.get? name = (front.get? name).or (back.get? name)) (bs : List Attribute)
    (name : String) :
    (bs.foldl put all).get? name = ((bs.foldl put front).get? name).or (back.get? name) := by
  induction bs generalizing all front with
  | nil => exact h name
  | cons b bs ih =>
    refine ih fun name => ?_
    rw [get?_put, get?_put, h]
    split <;> rfl

/-- What is merged lies over what was there. -/
theorem get?_merge {delta : Attributes} (keyed : delta.Keyed) (as : Attributes) (name : String) :
    (as.merge delta).get? name = (delta.get? name).or (as.get? name) := by
  have base : ∀ name, as.get? name = ((∅ : Attributes).get? name).or (as.get? name) :=
    fun _ => rfl
  have step := get?_foldl_put base delta.values name
  rwa [show delta.values.foldl put ∅ = delta from keyed.ofList_values] at step

/-- What is merged step by step can be merged beforehand. -/
theorem merge_merge {delta : Attributes} (keyed : delta.Keyed) (as later : Attributes) :
    as.merge (delta.merge later) = (as.merge delta).merge later := by
  refine SortedMap.ext_get? fun name => ?_
  rw [get?_merge (keyed.merge later)]
  exact (get?_foldl_put (get?_merge keyed as) later.values name).symm

/-- An attribute that is there after merging has been merged or was there before. -/
theorem mem_of_get?_merge {as delta : Attributes} {name : String} {a : Attribute}
    (h : (as.merge delta).get? name = some a) :
    (a ∈ delta.values ∧ a.name = name) ∨ as.get? name = some a := by
  unfold merge at h
  generalize delta.values = bs at h ⊢
  induction bs generalizing as with
  | nil => exact .inr h
  | cons b bs ih =>
    rcases ih h with ⟨hmem, hname⟩ | hput
    · exact .inl ⟨List.mem_cons_of_mem _ hmem, hname⟩
    · rw [get?_put] at hput
      split at hput
      · next heq =>
        cases hput
        exact .inl ⟨List.mem_cons_self, heq.symm⟩
      · exact .inr hput

/-- Merging does nothing under a name that none of the attributes has. -/
theorem get?_merge_of_absent {as delta : Attributes} {name : String}
    (absent : ∀ a ∈ delta.values, a.name ≠ name) : (as.merge delta).get? name = as.get? name := by
  unfold merge
  generalize delta.values = bs at absent ⊢
  induction bs generalizing as with
  | nil => rfl
  | cons b bs ih =>
    obtain ⟨hb, hbs⟩ := List.forall_mem_cons.mp absent
    rw [List.foldl_cons, ih hbs, get?_put, if_neg fun heq => hb heq.symm]

end Attributes

/-- What an update brings, and what becomes of the attributes that it does not name. -/
structure Update where
  delta : Attributes
  mode : UpdateMode

namespace Update

/-- What updates bring, merged in their order. -/
def merged (us : List Update) : Attributes := us.foldl (fun as u => as.merge u.delta) ∅

/-- Whether one of the updates drops the attributes that are there. -/
def replaces (us : List Update) : Bool := us.any fun u => u.mode = .replace

/-- The updates from the last one on that drops the attributes that are there, or all of them if
none does. -/
def latest : List Update → List Update
  | [] => []
  | u :: us => if replaces us then latest us else u :: us

/-- One update for several. -/
def collapse (us : List Update) : Update :=
  ⟨merged (latest us), if replaces us then .replace else .add⟩

/-- Whether an update brings no attribute of the name of a constant one. -/
def Spares (constant : Attributes) (u : Update) : Prop :=
  ∀ a ∈ u.delta.values, constant.contains a.name = false

theorem merged_concat (us : List Update) (u : Update) :
    merged (us ++ [u]) = (merged us).merge u.delta := by
  rw [merged, List.foldl_append]
  rfl

theorem keyed_merged (us : List Update) : (merged us).Keyed := by
  induction us using List.reverseRecOn with
  | nil => exact Attributes.keyed_empty
  | append_singleton us u ih =>
    rw [merged_concat]
    exact ih.merge u.delta

theorem replaces_concat (us : List Update) (u : Update) :
    replaces (us ++ [u]) = (replaces us || decide (u.mode = .replace)) := by
  simp [replaces]

theorem latest_concat (us : List Update) (u : Update) :
    latest (us ++ [u]) = if u.mode = .replace then [u] else latest us ++ [u] := by
  induction us with
  | nil => simp [latest, replaces]
  | cons v us ih =>
    rw [List.cons_append, latest, replaces_concat, ih, latest]
    by_cases hmode : u.mode = .replace
    · simp [hmode]
    · cases replaces us <;> simp [hmode]

theorem mem_of_mem_latest {us : List Update} {u : Update} (h : u ∈ latest us) : u ∈ us := by
  induction us with
  | nil => exact h
  | cons v us ih =>
    rw [latest] at h
    split at h
    · exact List.mem_cons_of_mem _ (ih h)
    · exact h

/-- What is merged of updates comes of one of them. -/
theorem exists_of_mem_merged {us : List Update} {a : Attribute} (h : a ∈ (merged us).values) :
    ∃ u ∈ us, a ∈ u.delta.values := by
  induction us using List.reverseRecOn with
  | nil => cases h
  | append_singleton us u ih =>
    have found := (keyed_merged (us ++ [u])).mem_values.mp h
    rw [merged_concat] at found
    rcases Attributes.mem_of_get?_merge found with ⟨hmem, -⟩ | hbefore
    · exact ⟨u, List.mem_append_right us (List.mem_singleton.mpr rfl), hmem⟩
    · obtain ⟨v, hv, hmem⟩ := ih ((keyed_merged us).mem_values.mpr hbefore)
      exact ⟨v, List.mem_append_left [u] hv, hmem⟩

theorem spares_collapse {constant : Attributes} {us : List Update}
    (spare : ∀ u ∈ us, u.Spares constant) : (collapse us).Spares constant := by
  intro a ha
  obtain ⟨u, hu, hmem⟩ := exists_of_mem_merged ha
  exact spare u (mem_of_mem_latest hu) a hmem

end Update

namespace Component

/-- The component after updates. -/
def updated (c : Component) (us : List Update) : Component :=
  us.foldl (fun c u => c.update u.delta u.mode) c

theorem updated_append (c : Component) (us vs : List Update) :
    c.updated (us ++ vs) = (c.updated us).updated vs :=
  List.foldl_append ..

theorem constant_updated (c : Component) (us : List Update) :
    (c.updated us).constant = c.constant := by
  induction us generalizing c with
  | nil => rfl
  | cons u us ih => exact ih (c.update u.delta u.mode)

theorem update_replace_update (c : Component) (before delta : Attributes) (mode : UpdateMode) :
    (c.update before mode).update delta .replace = c.update delta .replace := rfl

/-- An update that brings more to the one before it is one update with what both bring. -/
theorem update_add_update (c : Component) {before : Attributes} (keyed : before.Keyed)
    (mode : UpdateMode) (delta : Attributes) :
    (c.update before mode).update delta .add = c.update (before.merge delta) mode := by
  cases mode with
  | add => simp only [update, Attributes.merge_merge keyed]
  | replace => simp only [update, Attributes.replace, Attributes.merge_merge keyed]

/-- Several updates are one. -/
theorem updated_eq (c : Component) (us : List Update) :
    c.updated us = c.update (Update.collapse us).delta (Update.collapse us).mode := by
  induction us using List.reverseRecOn with
  | nil => rfl
  | append_singleton us u ih =>
    have step : c.updated (us ++ [u]) = (c.updated us).update u.delta u.mode :=
      updated_append c us [u]
    rw [step, ih]
    simp only [Update.collapse, Update.latest_concat, Update.replaces_concat]
    cases hmode : u.mode with
    | add =>
      rw [update_add_update c (Update.keyed_merged _), ← Update.merged_concat]
      simp
    | replace =>
      rw [update_replace_update]
      simp only [if_true, decide_true, Bool.or_true]
      -- The attributes of the update may stand under other names, those that it leaves do not.
      have alone : Attributes.merge ∅ (Update.merged [u]) = Attributes.merge ∅ u.delta :=
        (Update.keyed_merged [u]).ofList_values
      simp only [update, Attributes.replace, alone]

/-- Constant attributes that are not hidden stay in sight, and those that are hidden remain so or
come to sight. -/
theorem attribute?_update {c : Component} {u : Update} (spares : u.Spares c.constant)
    {name : String} {a : Attribute} (h : c.constant.get? name = some a) :
    (c.update u.delta u.mode).attribute? name =
      match u.mode with
      | .add => c.attribute? name
      | .replace => some a := by
  have absent : ∀ b ∈ u.delta.values, b.name ≠ name := by
    rintro b hb rfl
    have hconstant := spares b hb
    rw [SortedMap.contains, h] at hconstant
    cases hconstant
  cases u.mode with
  | add =>
    simp only [attribute?, update, Attributes.get?_merge_of_absent absent]
  | replace =>
    have dropped : (Attributes.merge ∅ u.delta).get? name = none :=
      Attributes.get?_merge_of_absent absent
    simp only [attribute?, update, Attributes.replace, dropped, h]

end Component

end Rendezvous
