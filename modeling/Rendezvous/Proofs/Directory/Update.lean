import Rendezvous.Proofs.Component.Update
import Rendezvous.Proofs.Directory.Canonical
/-!
# The updates of a stored description

A stored description is the one that was inserted last under its name, after the updates that have
been carried out since (`Directory.get?_applyAll`); those that were refused leave no trace. So it is
what one update makes of the inserted one (`Directory.updates_collapse`), and nothing but its
non-constant attributes has changed.

An update that is carried out brings no attribute of the name of a constant one
(`Directory.spares_of_carriedOut?`), although it is the non-constant ones that it changes. For that
reason a constant attribute stays in sight.
-/

namespace Rendezvous

namespace Directory

/-- Whether a change puts another description in the place of a component or takes it away. -/
def Change.Supplants (id : ComponentId) : Change → Prop
  | .insert c => c.id = id ∧ c.id.isBlank = false
  | .remove id' => id' = id
  | .update .. => False

/-- The update of a component that a change is, unless it is refused. -/
def carriedOut? (d : Directory) (id : ComponentId) : Change → Option Update
  | .update id' delta mode =>
    if id' = id then
      match d.update id delta mode with
      | .ok _ => some ⟨delta, mode⟩
      | .error _ => none
    else none
  | _ => none

/-- The updates of a component among changes, without those that are refused. -/
def updatesOf (d : Directory) (id : ComponentId) : List Change → List Update
  | [] => []
  | x :: rest => (d.carriedOut? id x).toList ++ (d.apply x).updatesOf id rest

variable {d : Directory} {id : ComponentId}

theorem spares_of_carriedOut? {c : Component} (h : d.get? id = some c) {x : Change} {u : Update}
    (hu : d.carriedOut? id x = some u) : u.Spares c.constant := by
  cases x with
  | insert c' => cases hu
  | remove id' => cases hu
  | update id' delta mode =>
    rw [carriedOut?] at hu
    split at hu
    · split at hu
      · next r hupdate =>
        cases hu
        obtain ⟨c', hget, spares, -⟩ := update_eq_ok.mp hupdate
        rw [h] at hget
        cases hget
        exact spares
      · cases hu
    · cases hu

/-- A change that does not supplant a component does to it what its update does. -/
theorem get?_apply (named : d.Named) {x : Change} (keeps : ¬ x.Supplants id) :
    (d.apply x).get? id =
      (d.get? id).map fun c => c.updated (d.carriedOut? id x).toList := by
  have unchanged : (d.get? id).map (fun c => c.updated []) = d.get? id := Option.map_id' ..
  cases x with
  | insert c =>
    refine Eq.trans ?_ unchanged.symm
    rw [(answer_eq named (.insert c)).2]
    split
    · next hid =>
      -- What has the name and supplants nothing is refused.
      have blank : c.id.isBlank = true := Bool.eq_true_of_not_eq_false fun hb => keeps ⟨hid.symm, hb⟩
      simp only [Change.outcome, blank, if_true, hid, Change.id]
    · rfl
  | remove id' =>
    refine Eq.trans ?_ unchanged.symm
    exact (get?_remove d id' id).trans (if_neg fun hid => keeps hid.symm)
  | update id' delta mode =>
    by_cases hid : id' = id
    · subst hid
      cases hupdate : d.update id' delta mode with
      | ok r =>
        obtain ⟨c, hget, -, hr, -⟩ := update_eq_ok.mp hupdate
        rw [apply_update hupdate, get?_update named hupdate, if_pos rfl, hget, hr]
        simp only [carriedOut?, hupdate, if_true, Option.toList_some, Option.map_some]
        rfl
      | error e =>
        simp only [carriedOut?, hupdate, if_true, Option.toList_none, apply]
        exact unchanged.symm
    · rw [(answer_eq named (.update id' delta mode)).2, if_neg fun h => hid h.symm]
      simp only [carriedOut?, if_neg hid, Option.toList_none]
      exact unchanged.symm

/-- Changes that do not supplant a component do to it what its updates among them do, and none of
these brings an attribute of the name of a constant one. -/
theorem get?_applyAll (named : d.Named) {c : Component} (h : d.get? id = some c)
    {changes : List Change} (keep : ∀ x ∈ changes, ¬ x.Supplants id) :
    (changes.foldl apply d).get? id = some (c.updated (d.updatesOf id changes)) ∧
      ∀ u ∈ d.updatesOf id changes, u.Spares c.constant := by
  induction changes generalizing d c with
  | nil => exact ⟨h, fun _ hu => by cases hu⟩
  | cons x rest ih =>
    obtain ⟨hx, hrest⟩ := List.forall_mem_cons.mp keep
    have step := get?_apply named hx
    rw [h, Option.map_some] at step
    obtain ⟨hget, spare⟩ := ih (named.apply x) step hrest
    refine ⟨?_, fun u hu => ?_⟩
    · rw [updatesOf, Component.updated_append]
      exact hget
    · rcases List.mem_append.mp hu with hu | hu
      · exact spares_of_carriedOut? h (Option.mem_toList.mp hu)
      · have spares := spare u hu
        rwa [Component.constant_updated] at spares

/-- Whoever is stored has been inserted and not been supplanted since. -/
theorem exists_insert {changes : List Change} {stored : Component}
    (h : (after changes).get? id = some stored) :
    ∃ before c later, changes = before ++ .insert c :: later ∧ c.id = id ∧
      c.id.isBlank = false ∧ ∀ x ∈ later, ¬ x.Supplants id := by
  induction changes using List.reverseRecOn generalizing stored with
  | nil => cases h
  | append_singleton changes x ih =>
    have named : (after changes).Named := (settled_after changes).posted.named
    have last : after (changes ++ [x]) = (after changes).apply x := List.foldl_append ..
    rw [last] at h
    by_cases supplants : x.Supplants id
    · cases x with
      | insert c =>
        exact ⟨changes, c, [], rfl, supplants.1, supplants.2, fun _ hx => by cases hx⟩
      | remove id' =>
        have gone := (get?_remove (after changes) id' id).symm.trans h
        rw [if_pos supplants.symm] at gone
        cases gone
      | update id' delta mode => exact supplants.elim
    · rw [get?_apply named supplants, Option.map_eq_some_iff] at h
      obtain ⟨c', hget, -⟩ := h
      obtain ⟨before, c, later, rfl, hid, filled, keep⟩ := ih hget
      refine ⟨before, c, later ++ [x], by simp, hid, filled, fun y hy => ?_⟩
      rcases List.mem_append.mp hy with hy | hy
      · exact keep y hy
      · exact List.mem_singleton.mp hy ▸ supplants

/-- A stored description is the one that was inserted last under its name, after one update: the
updates since then that were not refused, from the last one on that drops what is there, in their
order. Right after the insertion that update would be carried out and lead to the same description.
All but the non-constant attributes are as inserted. A constant attribute that was in sight at the
insertion still is; one that was hidden comes to sight or stays hidden by the same attribute. -/
theorem updates_collapse {changes : List Change} {id : ComponentId} {stored : Component}
    (h : (after changes).get? id = some stored) :
    ∃ before c later,
      changes = before ++ .insert c :: later ∧ c.id = id ∧ c.id.isBlank = false ∧
      (∀ x ∈ later, ¬ x.Supplants id) ∧
      let start := after (before ++ [.insert c])
      let u := Update.collapse (start.updatesOf id later)
      start.get? id = some c ∧
      (∃ d, start.update id u.delta u.mode = .ok (stored, d)) ∧
      stored.nonConstant = (c.update u.delta u.mode).nonConstant ∧
      { stored with nonConstant := c.nonConstant } = c ∧
      ∀ name a, c.constant.get? name = some a →
        (c.nonConstant.get? name = none → stored.attribute? name = some a) ∧
        ∀ b, c.nonConstant.get? name = some b →
          stored.attribute? name = some b ∨ stored.attribute? name = some a := by
  obtain ⟨before, c, later, rfl, hid, filled, keep⟩ := exists_insert h
  refine ⟨before, c, later, rfl, hid, filled, keep, ?_⟩
  intro start u
  have named : start.Named := (settled_after _).posted.named
  have inserted : start.get? id = some c := by
    have hinsert : (after before).insert c =
        .ok ((after before).get? c.id, ((after before).remove c.id).2.place c) :=
      insert_eq_ok.mpr ⟨filled, rfl, rfl⟩
    have hstart : start = (after before).apply (.insert c) := List.foldl_append ..
    rw [hstart, apply_insert hinsert, get?_insert hinsert, if_pos hid.symm]
  obtain ⟨hget, spare⟩ := get?_applyAll named inserted keep
  have stays : stored = c.update u.delta u.mode := by
    have hsplit : after (before ++ .insert c :: later) = later.foldl apply start := by
      rw [List.append_cons]
      exact List.foldl_append ..
    rw [hsplit, hget, Component.updated_eq] at h
    exact (Option.some.inj h).symm
  have spares : u.Spares c.constant := Update.spares_collapse spare
  refine ⟨inserted, ⟨_, update_eq_ok.mpr ⟨c, inserted, spares, stays, rfl⟩⟩, by rw [stays],
    by rw [stays]; rfl, fun name a ha => ?_⟩
  have sight := Component.attribute?_update spares ha
  rw [← stays] at sight
  refine ⟨fun hnone => ?_, fun b hb => ?_⟩
  · rw [sight]
    cases u.mode with
    | add => simp only [Component.attribute?, hnone, ha]
    | replace => rfl
  · rw [sight]
    cases u.mode with
    | add => exact .inl (by simp only [Component.attribute?, hb])
    | replace => exact .inr rfl

/-- A lamp whose constant level is hidden gets a room, is refused a constant maker, loses what hid
the level together with the room, and gets a shade. -/
def refittedLamp : List Change :=
  let one (name word : String) := Attributes.ofList [.valued name (.string word)]
  [.insert { id := ⟨"lamp"⟩, kind := .widget,
             constant := Attributes.ofList
               [.valued "maker" (.string "acme"), .valued "level" (.integer 1)],
             nonConstant := Attributes.ofList [.valued "level" (.integer 7)] },
    .update ⟨"lamp"⟩ (one "room" "hall") .add,
    .update ⟨"lamp"⟩ (one "maker" "other") .replace,
    .update ⟨"lamp"⟩ (one "color" "red") .replace,
    .update ⟨"lamp"⟩ (one "shade" "blue") .add]

/-- The lamp is left with the color and the shade, its own maker and the level that was hidden. -/
theorem updates_collapse_lamp :
    ∃ stored : Component, (after refittedLamp).get? ⟨"lamp"⟩ = some stored ∧
      stored.nonConstant.keys = ["color", "shade"] ∧
      (stored.attribute? "level").bind Attribute.value = some (.integer 1) ∧
      (stored.attribute? "maker").bind Attribute.value = some (.string "acme") ∧
      ∃ before c later, refittedLamp = before ++ .insert c :: later ∧
        let start := after (before ++ [.insert c])
        let u := Update.collapse (start.updatesOf ⟨"lamp"⟩ later)
        (∃ d, start.update ⟨"lamp"⟩ u.delta u.mode = .ok (stored, d)) ∧
          { stored with nonConstant := c.nonConstant } = c := by
  have evaluated : ((after refittedLamp).get? ⟨"lamp"⟩).any fun stored =>
      stored.nonConstant.keys = ["color", "shade"] ∧
      (stored.attribute? "level").bind Attribute.value = some (.integer 1) ∧
      (stored.attribute? "maker").bind Attribute.value = some (.string "acme") := by
    decide +kernel
  obtain ⟨stored, hget, hstored⟩ := (Option.any_eq_true _ _).mp evaluated
  obtain ⟨hkeys, hlevel, hmaker⟩ := of_decide_eq_true hstored
  obtain ⟨before, c, later, hsplit, -, -, -, -, hupdate, -, hrest, -⟩ := updates_collapse hget
  exact ⟨stored, hget, hkeys, hlevel, hmaker, before, c, later, hsplit, hupdate, hrest⟩

end Directory

end Rendezvous
