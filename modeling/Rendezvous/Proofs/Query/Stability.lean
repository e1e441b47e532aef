import Rendezvous.Proofs.Component.Update
import Rendezvous.Proofs.Query.Search
/-!
# Verdicts when more is known

A component may come to have values that it lacked, and keep all others
(`Component.ExtendedBy`). Conjunction and disjunction can only turn what cannot be told into a
definite verdict then (`Verdict.RefinedBy`), so a query made of them alone keeps every definite
verdict (`Query.definite_stays`). Negation is that of a closed world: it makes a definite verdict of
what cannot be told, and that one need not stay (`Query.Positive.verdict_not_eq_iff`).

An update extends a component exactly if it leaves the values alone that the component has
(`Component.extendedBy_update_iff`).
-/

namespace Rendezvous

namespace Verdict

/-- Whether a verdict may become another one when more is known: a definite one stays. -/
def RefinedBy (v w : Verdict) : Prop := v = unknown ∨ v = w

theorem refinedBy_iff {v w : Verdict} :
    v.RefinedBy w ↔ (v = holds → w = holds) ∧ (v = fails → w = fails) := by
  unfold RefinedBy
  cases v <;> cases w <;> simp

theorem RefinedBy.and {v v' w w' : Verdict} (h : v.RefinedBy v') (h' : w.RefinedBy w') :
    (v.and w).RefinedBy (v'.and w') := by
  obtain ⟨hholds, hfails⟩ := refinedBy_iff.mp h
  obtain ⟨hholds', hfails'⟩ := refinedBy_iff.mp h'
  rw [refinedBy_iff, and_eq_holds, and_eq_holds, and_eq_fails, and_eq_fails]
  exact ⟨And.imp hholds hholds', Or.imp hfails hfails'⟩

theorem RefinedBy.or {v v' w w' : Verdict} (h : v.RefinedBy v') (h' : w.RefinedBy w') :
    (v.or w).RefinedBy (v'.or w') := by
  obtain ⟨hholds, hfails⟩ := refinedBy_iff.mp h
  obtain ⟨hholds', hfails'⟩ := refinedBy_iff.mp h'
  rw [refinedBy_iff, or_eq_holds, or_eq_holds, or_eq_fails, or_eq_fails]
  exact ⟨Or.imp hholds hholds', And.imp hfails hfails'⟩

/-- What refines the parts one by one refines what is folded of them. -/
theorem RefinedBy.foldl {α : Type} {op : Verdict → Verdict → Verdict}
    (mono : ∀ {v v' w w'}, RefinedBy v v' → RefinedBy w w' → RefinedBy (op v w) (op v' w'))
    {f g : α → Verdict} {xs : List α} (h : ∀ x ∈ xs, (f x).RefinedBy (g x)) {v w : Verdict}
    (sofar : v.RefinedBy w) : ((xs.map f).foldl op v).RefinedBy ((xs.map g).foldl op w) := by
  induction xs generalizing v w with
  | nil => exact sofar
  | cons x xs ih =>
    obtain ⟨hx, hxs⟩ := List.forall_mem_cons.mp h
    exact ih hxs (mono sofar hx)

theorem RefinedBy.all {α : Type} {f g : α → Verdict} {xs : List α}
    (h : ∀ x ∈ xs, (f x).RefinedBy (g x)) :
    (Verdict.all (xs.map f)).RefinedBy (Verdict.all (xs.map g)) := by
  rw [Verdict.all, Verdict.all, allFrom_eq_foldl, allFrom_eq_foldl]
  exact RefinedBy.foldl RefinedBy.and h (.inr rfl)

theorem RefinedBy.any {α : Type} {f g : α → Verdict} {xs : List α}
    (h : ∀ x ∈ xs, (f x).RefinedBy (g x)) :
    (Verdict.any (xs.map f)).RefinedBy (Verdict.any (xs.map g)) := by
  rw [Verdict.any, Verdict.any, anyFrom_eq_foldl, anyFrom_eq_foldl]
  exact RefinedBy.foldl RefinedBy.or h (.inr rfl)

end Verdict

/-! ## Components of which more is known -/

namespace Component

/-- Whether every value that a selector finds in a component is found in another one too, and the
two offer the same. -/
structure ExtendedBy (c c' : Component) : Prop where
  values : ∀ (s : Selector) v, s.resolve c = .value v → s.resolve c' = .value v
  callbacks : c'.callbacks = c.callbacks
  services : c'.services = c.services

theorem attribute?_eq_or (c : Component) (name : String) :
    c.attribute? name = (c.nonConstant.get? name).or (c.constant.get? name) := by
  unfold attribute?
  cases c.nonConstant.get? name <;> rfl

theorem attribute?_add (c : Component) {delta : Attributes} (keyed : delta.Keyed) (name : String) :
    (c.update delta .add).attribute? name = (delta.get? name).or (c.attribute? name) := by
  have hmerged : (c.update delta .add).nonConstant.get? name =
      (delta.get? name).or (c.nonConstant.get? name) := Attributes.get?_merge keyed _ name
  have hconstant : (c.update delta .add).constant = c.constant := rfl
  rw [attribute?_eq_or, attribute?_eq_or, hmerged, hconstant, Option.or_assoc]

/-- The values that an update brings extend a component exactly if it has no others in their place.
An attribute without a value counts too: it hides the value that was there. -/
theorem extendedBy_update_iff {c : Component} {delta : Attributes} (keyed : delta.Keyed) :
    c.ExtendedBy (c.update delta .add) ↔
      ∀ name a b v, delta.get? name = some a → c.attribute? name = some b → b.value = some v →
        a.value = some v := by
  constructor
  · intro extended name a b v hdelta hb hv
    have hafter := extended.values (.attribute name) v
      (Selector.resolve_attribute_eq_value.mpr ⟨b, hb, hv⟩)
    obtain ⟨a', ha', hv'⟩ := Selector.resolve_attribute_eq_value.mp hafter
    rw [attribute?_add c keyed, hdelta] at ha'
    cases ha'
    exact hv'
  · intro same
    refine ⟨fun s v hv => ?_, rfl, rfl⟩
    cases s with
    | «attribute» name =>
      obtain ⟨b, hb, hbv⟩ := Selector.resolve_attribute_eq_value.mp hv
      refine Selector.resolve_attribute_eq_value.mpr ?_
      rw [attribute?_add c keyed]
      cases hdelta : delta.get? name with
      | none => exact ⟨b, hb, hbv⟩
      | some a => exact ⟨a, rfl, same name a b v hdelta hb hbv⟩
    | _ => exact hv

/-- So do values where the component has none, be it that it lacks the attribute or only declares
it. -/
theorem extendedBy_of_lacking {c : Component} {delta : Attributes} (keyed : delta.Keyed)
    (lacking : ∀ a ∈ delta.values, (c.attribute? a.name).bind Attribute.value = none) :
    c.ExtendedBy (c.update delta .add) := by
  refine (extendedBy_update_iff keyed).mpr fun name a b v hdelta hb hv => ?_
  obtain rfl : a.name = name := keyed name a hdelta
  have hnone := lacking a (keyed.mem_values.mpr hdelta)
  rw [hb, Option.bind_some, hv] at hnone
  cases hnone

end Component

theorem Rule.verdict_refinedBy (r : Rule) {c c' : Component} (h : c.ExtendedBy c') :
    (r.verdict c).RefinedBy (r.verdict c') := by
  unfold Rule.verdict
  cases hresolved : r.selector.resolve c with
  | value v =>
    rw [h.values _ _ hresolved]
    exact .inr rfl
  | names ns =>
    have hsame : r.selector.resolve c' = .names ns := by
      rw [Selector.resolve_eq_names] at hresolved ⊢
      rwa [h.callbacks, h.services]
    rw [hsame]
    exact .inr rfl
  | missing => exact .inl rfl

namespace Query

/-- Whether a query is made of rules, conjunctions and disjunctions alone. -/
inductive Positive : Query → Prop
  | rule (r : Rule) : Positive (rule r)
  | all {qs : List Query} (h : ∀ q ∈ qs, Positive q) : Positive (all qs)
  | any {qs : List Query} (h : ∀ q ∈ qs, Positive q) : Positive (any qs)

theorem Positive.verdict_refinedBy {q : Query} (positive : q.Positive) {c c' : Component}
    (h : c.ExtendedBy c') : (q.verdict c).RefinedBy (q.verdict c') := by
  induction positive with
  | rule r =>
    rw [verdict, verdict]
    exact r.verdict_refinedBy h
  | all _ ih =>
    rw [verdict_all_eq, verdict_all_eq]
    exact .all ih
  | any _ ih =>
    rw [verdict_any_eq, verdict_any_eq]
    exact .any ih

/-- The negation of such a query changes exactly if what could not be told turns out to hold. -/
theorem Positive.verdict_not_eq_iff {q : Query} (positive : q.Positive) {c c' : Component}
    (h : c.ExtendedBy c') :
    (not q).verdict c' = (not q).verdict c ↔
      ¬ (q.verdict c = .unknown ∧ q.verdict c' = .holds) := by
  rw [verdict, verdict]
  rcases positive.verdict_refinedBy h with hunknown | hsame
  · rw [hunknown]
    cases q.verdict c' <;> decide
  · rw [← hsame]
    cases q.verdict c <;> decide

/-- A query without negations that holds of a component, or that fails, still does so when the
component has values that it lacked. -/
theorem definite_stays {q : Query} (positive : q.Positive) {c c' : Component}
    (h : c.ExtendedBy c') :
    (q.verdict c = .holds → q.verdict c' = .holds) ∧
      (q.verdict c = .fails → q.verdict c' = .fails) :=
  Verdict.refinedBy_iff.mp (positive.verdict_refinedBy h)

/-- A lamp whose level is declared only. -/
def darkLamp : Component where
  id := ⟨"lamp"⟩
  kind := .widget
  nonConstant := .ofList [.declared "level" .integer]
  callbacks := .ofList ["dimmed"]

/-- What the lamp tells later. -/
def levelTold : Attributes := .ofList [.valued "level" (.integer 2)]

/-- The first part of the disjunction cannot be told before the level is, and fails then; the whole
holds all along. -/
theorem definite_stays_lamp :
    let bright := onAttribute "level" .greater (.integer 3)
    let q := any [bright, all [idIs "lamp", compare .callback .equal (.string "dimmed")]]
    q.Positive ∧ darkLamp.ExtendedBy (darkLamp.update levelTold .add) ∧
      bright.verdict darkLamp = .unknown ∧
      bright.verdict (darkLamp.update levelTold .add) = .fails ∧
      q.verdict darkLamp = .holds ∧ q.verdict (darkLamp.update levelTold .add) = .holds := by
  intro bright q
  have positive : q.Positive := by
    refine .any (List.forall_mem_cons.mpr ⟨.rule _, List.forall_mem_singleton.mpr ?_⟩)
    refine .all (List.forall_mem_cons.mpr ⟨.rule _, List.forall_mem_singleton.mpr ?_⟩)
    exact .rule _
  have extended : darkLamp.ExtendedBy (darkLamp.update levelTold .add) := by
    refine Component.extendedBy_of_lacking (Attributes.keyed_ofList _) ?_
    decide +kernel
  have hholds : q.verdict darkLamp = .holds := by decide +kernel
  exact ⟨positive, extended, by decide +kernel, by decide +kernel, hholds,
    (definite_stays positive extended).1 hholds⟩

end Query

end Rendezvous
