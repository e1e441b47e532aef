import Rendezvous.Directory.Registry
import Rendezvous.Proofs.Directory.Contents
/-!
# What a registry call can do

Each call either fails and leaves the directory as it was, or does the operation of the directory.
The lemmas `Registry.add_cases` and its like say so, with everything that is known in each case; no
proof about the service looks into a call any further.
-/

namespace Rendezvous

namespace Registry

/-- The registry after a call that has left the given directory. -/
def after (r : Registry) (d : Directory) : Registry :=
  { r with directory := d, calls := r.calls + 1 }

@[simp] theorem after_directory (r : Registry) (d : Directory) : (r.after d).directory = d := rfl

@[simp] theorem after_faults (r : Registry) (d : Directory) : (r.after d).faults = r.faults := rfl

/-- Whether no call fails by itself, as in memory. -/
def Faultless (r : Registry) : Prop := ∀ n kind, r.faults n kind = none

theorem Faultless.after {r : Registry} (h : r.Faultless) (d : Directory) : (r.after d).Faultless :=
  h

/-- Whether the call that comes next fails by itself. -/
def Fails (r : Registry) (kind : RegistryCall) : Prop :=
  ∃ reason, r.faults r.calls kind = some reason

theorem Faultless.not_fails {r : Registry} (h : r.Faultless) (kind : RegistryCall) :
    ¬ r.Fails kind := by
  rintro ⟨reason, hreason⟩
  rw [h] at hreason
  cases hreason

theorem call_cases {α : Type} (r : Registry) (kind : RegistryCall)
    (operation : Directory → Except DirectoryError (α × Directory)) :
    (∃ e, (r.Fails kind ∨ operation r.directory = .error e) ∧
      r.call kind operation = (.error e, r.after r.directory)) ∨
    ∃ a d, operation r.directory = .ok (a, d) ∧ r.call kind operation = (.ok a, r.after d) := by
  unfold call
  cases hfault : r.faults r.calls kind with
  | some reason => exact .inl ⟨.storage reason, .inl ⟨reason, hfault⟩, rfl⟩
  | none =>
    cases hop : operation r.directory with
    | error e => exact .inl ⟨e, .inr rfl, rfl⟩
    | ok result => exact .inr ⟨result.1, result.2, rfl, rfl⟩

/-- A call to a registry that does not fail is the operation of the directory. -/
theorem Faultless.call_cases {α : Type} {r : Registry} (h : r.Faultless) (kind : RegistryCall)
    (operation : Directory → Except DirectoryError (α × Directory)) :
    (∃ e, operation r.directory = .error e ∧
      r.call kind operation = (.error e, r.after r.directory)) ∨
    ∃ a d, operation r.directory = .ok (a, d) ∧ r.call kind operation = (.ok a, r.after d) := by
  rcases r.call_cases kind operation with ⟨e, fails | refused, hcall⟩ | done
  · exact absurd fails (h.not_fails kind)
  · exact .inl ⟨e, refused, hcall⟩
  · exact .inr done

/-- A call that fails by itself changes nothing but the count. -/
theorem Fails.call {α : Type} {r : Registry} {kind : RegistryCall} (fails : r.Fails kind)
    (operation : Directory → Except DirectoryError (α × Directory)) :
    ∃ e, r.call kind operation = (.error e, r.after r.directory) := by
  obtain ⟨reason, hreason⟩ := fails
  refine ⟨.storage reason, ?_⟩
  unfold Registry.call
  rw [hreason]
  rfl

theorem add_cases (r : Registry) (c : Component) :
    (∃ e, r.add c = (.error e, r.after r.directory)) ∨
    ∃ previous d, r.directory.insert c = .ok (previous, d) ∧
      r.add c = (.ok previous, r.after d) := by
  rcases r.call_cases .add fun d => d.insert c with ⟨e, -, h⟩ | h
  · exact .inl ⟨e, h⟩
  · exact .inr h

/-- A component with a name can be added to a registry that does not fail. -/
theorem add_of_faultless {r : Registry} (faultless : r.Faultless) {c : Component}
    (filled : c.id.isBlank = false) :
    ∃ d, r.directory.insert c = .ok (r.directory.get? c.id, d) ∧
      r.add c = (.ok (r.directory.get? c.id), r.after d) := by
  have hinsert : r.directory.insert c =
      .ok (r.directory.get? c.id, (r.directory.remove c.id).2.place c) :=
    Directory.insert_eq_ok.mpr ⟨filled, rfl, rfl⟩
  rcases r.call_cases .add fun d => d.insert c with ⟨e, hfail | herror, -⟩ | ⟨a, d, hop, h⟩
  · exact absurd hfail (faultless.not_fails .add)
  · cases hinsert.symm.trans herror
  · obtain ⟨rfl, rfl⟩ := Prod.mk.inj (Except.ok.inj (hinsert.symm.trans hop))
    exact ⟨_, hinsert, h⟩

/-- A component whose name is blank is refused. -/
theorem add_of_blank {r : Registry} (faultless : r.Faultless) {c : Component}
    (blank : c.id.isBlank = true) :
    r.add c = (.error (.invalidDescription "component id must not be empty"),
      r.after r.directory) := by
  have hinsert : r.directory.insert c =
      .error (.invalidDescription "component id must not be empty") := if_pos blank
  rcases faultless.call_cases .add fun d => d.insert c with ⟨e, herror, h⟩ | ⟨a, d, hop, -⟩
  · cases hinsert.symm.trans herror
    exact h
  · cases hinsert.symm.trans hop

theorem update_cases (r : Registry) (id : ComponentId) (delta : Attributes) (mode : UpdateMode) :
    (∃ e, r.update id delta mode = (.error e, r.after r.directory)) ∨
    ∃ updated d, r.directory.update id delta mode = .ok (updated, d) ∧
      r.update id delta mode = (.ok updated, r.after d) := by
  rcases r.call_cases .update fun d => d.update id delta mode with ⟨e, -, h⟩ | h
  · exact .inl ⟨e, h⟩
  · exact .inr h

theorem remove_cases (r : Registry) (id : ComponentId) :
    (∃ e, r.Fails .remove ∧ r.remove id = (.error e, r.after r.directory)) ∨
    r.remove id = (.ok (r.directory.get? id), r.after (r.directory.remove id).2) := by
  rcases r.call_cases .remove fun d => .ok (d.remove id) with ⟨e, hfail, h⟩ | ⟨a, d, hop, h⟩
  · exact .inl ⟨e, hfail.resolve_right (by simp), h⟩
  · refine .inr (h.trans ?_)
    rw [← Directory.remove_fst, Except.ok.inj hop]

theorem get_cases (r : Registry) (id : ComponentId) :
    (∃ e, r.Fails .get ∧ r.get id = (.error e, r.after r.directory)) ∨
    r.get id = (.ok (r.directory.get? id), r.after r.directory) := by
  rcases r.call_cases .get fun d => .ok (d.get? id, d) with ⟨e, hfail, h⟩ | ⟨a, d, hop, h⟩
  · exact .inl ⟨e, hfail.resolve_right (by simp), h⟩
  · cases hop
    exact .inr h

theorem contains_cases (r : Registry) (id : ComponentId) :
    (∃ e, r.Fails .contains ∧ r.contains id = (.error e, r.after r.directory)) ∨
    r.contains id = (.ok (r.directory.contains id), r.after r.directory) := by
  rcases r.call_cases .contains fun d => .ok (d.contains id, d) with ⟨e, hfail, h⟩ | ⟨a, d, hop, h⟩
  · exact .inl ⟨e, hfail.resolve_right (by simp), h⟩
  · cases hop
    exact .inr h

theorem search_cases (r : Registry) (q : Query) :
    (∃ e, r.Fails .search ∧ r.search q = (.error e, r.after r.directory)) ∨
    r.search q = (.ok (r.directory.search q), r.after r.directory) := by
  rcases r.call_cases .search fun d => .ok (d.search q, d) with ⟨e, hfail, h⟩ | ⟨a, d, hop, h⟩
  · exact .inl ⟨e, hfail.resolve_right (by simp), h⟩
  · cases hop
    exact .inr h

end Registry

end Rendezvous
