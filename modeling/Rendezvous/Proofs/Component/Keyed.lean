import Rendezvous.Component.Basic
import Rendezvous.Proofs.Collection.SortedSet
import Rendezvous.Proofs.Message.Node
import Rendezvous.Query.Comparison
/-!
# Attributes under their names

A set of attributes is keyed if each attribute stands under its own name. Whatever is put or merged
into such a set leaves it so, and in a keyed component the attributes that are not hidden are those
that are found under their names. Components that are read from messages are keyed. What is read from
elsewhere may not be; then it matters whether a comparison can tell (`Component.Faithful`).
-/

namespace Rendezvous

/-- Whether every attribute of a component stands under its own name. -/
structure Component.Keyed (c : Component) : Prop where
  constant : c.constant.Keyed
  nonConstant : c.nonConstant.Keyed

/-- Whether an attribute has a value of which a comparison with an operand holds. -/
def Attribute.Satisfies (a : Attribute) (comparison : Comparison) (operand : Value) : Prop :=
  ∃ v, a.value = some v ∧ comparison.evaluate v operand = .holds

namespace Attributes

theorem Keyed.mem_values {as : Attributes} (keyed : as.Keyed) {a : Attribute} :
    a ∈ as.values ↔ as.get? a.name = some a := by
  rw [SortedMap.mem_values]
  constructor
  · rintro ⟨k, hk⟩
    rwa [keyed k a hk]
  · exact fun h => ⟨a.name, h⟩

theorem Keyed.put {as : Attributes} (keyed : as.Keyed) (a : Attribute) : (as.put a).Keyed := by
  intro name b h
  rw [Attributes.put, SortedMap.get?_insert] at h
  split at h
  · next heq =>
    cases h
    exact heq.symm
  · exact keyed name b h

theorem keyed_empty : (∅ : Attributes).Keyed := by
  intro _ _ h
  cases h

theorem Keyed.foldl_put (bs : List Attribute) {as : Attributes} (keyed : as.Keyed) :
    (bs.foldl Attributes.put as).Keyed := by
  induction bs generalizing as with
  | nil => exact keyed
  | cons b bs ih => exact ih (keyed.put b)

theorem keyed_ofList (as : List Attribute) : (ofList as).Keyed := keyed_empty.foldl_put as

/-- Whatever is merged into attributes under their names leaves them so. -/
theorem Keyed.merge {as : Attributes} (keyed : as.Keyed) (delta : Attributes) :
    (as.merge delta).Keyed :=
  keyed.foldl_put delta.values

end Attributes

namespace Component

theorem Keyed.update {c : Component} (keyed : c.Keyed) (delta : Attributes) (mode : UpdateMode) :
    (c.update delta mode).Keyed where
  constant := keyed.constant
  nonConstant := by
    cases mode with
    | add => exact keyed.nonConstant.merge delta
    | replace => exact Attributes.keyed_empty.merge delta

/-- The resolved attributes are those that are found under their names. -/
theorem Keyed.mem_resolved {c : Component} (keyed : c.Keyed) {a : Attribute} :
    a ∈ c.resolved ↔ c.attribute? a.name = some a := by
  rw [resolved, List.mem_append, List.mem_filter, keyed.nonConstant.mem_values,
    keyed.constant.mem_values, attribute?, SortedMap.contains]
  cases c.nonConstant.get? a.name <;> simp

theorem Keyed.name_of_attribute? {c : Component} (keyed : c.Keyed) {name : String} {a : Attribute}
    (h : c.attribute? name = some a) : a.name = name := by
  unfold attribute? at h
  split at h
  · next hfound =>
    cases h
    exact keyed.nonConstant name a hfound
  · exact keyed.constant name a h

/-- Whether no comparison can tell the attributes that call themselves by a name from the one that
stands under it. -/
def Faithful (c : Component) : Prop :=
  ∀ name comparison operand,
    (∃ a ∈ c.resolved, a.name = name ∧ a.Satisfies comparison operand) ↔
      ∃ a, c.attribute? name = some a ∧ a.Satisfies comparison operand

theorem Keyed.faithful {c : Component} (keyed : c.Keyed) : c.Faithful := by
  intro name comparison operand
  constructor
  · rintro ⟨a, ha, rfl, hv⟩
    exact ⟨a, keyed.mem_resolved.mp ha, hv⟩
  · rintro ⟨a, ha, hv⟩
    have hname : a.name = name := keyed.name_of_attribute? ha
    exact ⟨a, keyed.mem_resolved.mpr (hname ▸ ha), hname, hv⟩

theorem keyed_attributesOf {n : Node} {name : String} {as : Attributes}
    (h : attributesOf n name = .ok as) : as.Keyed := by
  unfold attributesOf at h
  split at h
  · next child _ =>
    unfold Attributes.ofNode at h
    cases hread : (child.childrenNamed Attribute.tag).mapM Attribute.ofNode with
    | error e =>
      rw [hread] at h
      cases h
    | ok read =>
      rw [hread] at h
      cases h
      exact Attributes.keyed_ofList read
  · cases h
    exact Attributes.keyed_empty

theorem keyed_ofNode {n : Node} {c : Component} (h : ofNode n = .ok c) : c.Keyed := by
  obtain ⟨-, -, h⟩ := Node.bind_eq_ok.mp h
  obtain ⟨id, -, h⟩ := Node.bind_eq_ok.mp h
  dsimp only at h
  split at h
  · cases h
  obtain ⟨kindText, -, h⟩ := Node.bind_eq_ok.mp h
  obtain ⟨kind, -, h⟩ := Node.bind_eq_ok.mp h
  obtain ⟨port, -, h⟩ := Node.bind_eq_ok.mp h
  obtain ⟨constant, hconstant, h⟩ := Node.bind_eq_ok.mp h
  obtain ⟨nonConstant, hnonConstant, h⟩ := Node.bind_eq_ok.mp h
  cases h
  exact ⟨keyed_attributesOf hconstant, keyed_attributesOf hnonConstant⟩

end Component

end Rendezvous
