import Rendezvous.Message.Node
/-!
# Reading the fields of a node

When the readings of fields succeed, and what they give. A typed value is read field by field, so
whatever reads one is taken apart with `Node.bind_eq_ok`, one field at a time.
-/

namespace Rendezvous

namespace Node

/-- Induction over trees of nodes, with the hypothesis for each child. -/
@[elab_as_elim]
theorem induction {motive : Node → Prop}
    (step : ∀ name value children, (∀ c ∈ children, motive c) → motive ⟨name, value, children⟩)
    (n : Node) : motive n :=
  @Node.rec motive (fun cs => ∀ c ∈ cs, motive c) step (fun _ h => absurd h List.not_mem_nil)
    (fun _ _ hc hcs => List.forall_mem_cons.mpr ⟨hc, hcs⟩) n

/-- What a reading in two steps gives is given by both. -/
theorem bind_eq_ok {ε α β : Type} {x : Except ε α} {f : α → Except ε β} {b : β} :
    (x >>= f) = .ok b ↔ ∃ a, x = .ok a ∧ f a = .ok b := by
  cases x <;> simp [bind, Except.bind]

/-- What is read and then made into something else is read. -/
theorem map_eq_ok {ε α β : Type} {x : Except ε α} {f : α → β} {b : β} :
    x.map f = .ok b ↔ ∃ a, x = .ok a ∧ f a = b := by
  cases x <;> simp [Except.map]

theorem expectName_eq_ok {n : Node} {expected : String} {u : Unit} :
    n.expectName expected = .ok u ↔ n.name = expected := by
  unfold expectName
  split <;> simp [*]

theorem requireValue_eq_ok {n : Node} {name v : String} :
    n.requireValue name = .ok v ↔ n.valueOf? name = some v := by
  unfold requireValue
  cases n.valueOf? name <;> simp

theorem requireChild_eq_ok {n c : Node} {name : String} :
    n.requireChild name = .ok c ↔ n.child? name = some c := by
  unfold requireChild
  cases n.child? name <;> simp

/-- A field is read from its first value, without the blanks around it. -/
theorem parse_eq_ok {α : Type} {n : Node} {name : String} {reader : String → Option α} {a : α} :
    n.parse name reader = .ok a ↔
      ∃ raw, n.valueOf? name = some raw ∧ reader (Text.trim raw) = some a := by
  unfold parse requireValue
  cases n.valueOf? name with
  | none => simp [bind, Except.bind]
  | some raw => cases h : reader (Text.trim raw) <;> simp [bind, Except.bind, h]

@[simp]
theorem name_leaf (name v : String) : (leaf name v).name = name := rfl

@[simp]
theorem value_leaf (name v : String) : (leaf name v).value = some v := rfl

@[simp]
theorem name_branch (name : String) (cs : List Node) : (branch name cs).name = name := rfl

@[simp]
theorem children_branch (name : String) (cs : List Node) : (branch name cs).children = cs := rfl

@[simp]
theorem value_branch (name : String) (cs : List Node) : (branch name cs).value = none := rfl

@[simp]
theorem child?_branch_nil (tag name : String) : (branch tag []).child? name = none := rfl

@[simp]
theorem valueOf?_branch_nil (tag name : String) : (branch tag []).valueOf? name = none := rfl

/-- Children are looked at in order. -/
theorem child?_branch_cons (tag name : String) (c : Node) (cs : List Node) :
    (branch tag (c :: cs)).child? name =
      if c.name = name then some c else (branch tag cs).child? name := by
  unfold child? branch
  rw [List.find?_cons]
  split <;> simp_all

theorem valueOf?_branch_cons (tag name : String) (c : Node) (cs : List Node) :
    (branch tag (c :: cs)).valueOf? name =
      if c.name = name then c.value else (branch tag cs).valueOf? name := by
  unfold valueOf?
  rw [child?_branch_cons]
  split <;> rfl

/-- Children of other names are passed over. -/
theorem valueOf?_branch_append {tag name : String} {cs ds : List Node}
    (h : ∀ c ∈ cs, c.name ≠ name) :
    (branch tag (cs ++ ds)).valueOf? name = (branch tag ds).valueOf? name := by
  induction cs with
  | nil => rfl
  | cons c cs ih =>
    obtain ⟨hc, hcs⟩ := List.forall_mem_cons.mp h
    rw [List.cons_append, valueOf?_branch_cons, if_neg hc, ih hcs]

theorem ok_bind {ε α β : Type} (a : α) (f : α → Except ε β) :
    ((Except.ok a : Except ε α) >>= f) = f a := rfl

/-- A reading that is refused under a condition succeeds where the condition does not hold. -/
theorem refuse_eq_ok {ε α : Type} {refused : Bool} {e : ε} {f : Unit → Except ε α} {a : α} :
    (if refused = true then (throw e : Except ε Unit) >>= f else f ()) = .ok a ↔
      refused = false ∧ f () = .ok a := by
  cases refused
  · simp
  · simp [throw, throwThe, MonadExceptOf.throw, bind, Except.bind]

/-- A field that may be missing is read like another one where it is there. -/
theorem parseOptional_eq_ok {α : Type} {n : Node} {name : String} {reader : String → Option α}
    {found : Option α} :
    n.parseOptional name reader = .ok found ↔
      n.valueOf? name = none ∧ found = none ∨
        ∃ raw a, n.valueOf? name = some raw ∧ reader (Text.trim raw) = some a ∧ found = some a := by
  unfold parseOptional
  cases hvalue : n.valueOf? name with
  | none => simp [eq_comm]
  | some raw =>
    simp only [map_eq_ok, parse_eq_ok, hvalue]
    constructor
    · rintro ⟨a, ⟨_, hraw, hread⟩, rfl⟩
      cases hraw
      exact .inr ⟨raw, a, rfl, hread, rfl⟩
    · rintro (⟨hnone, -⟩ | ⟨_, a, hraw, hread, rfl⟩)
      · cases hnone
      · cases hraw
        exact ⟨a, ⟨raw, rfl, hread⟩, rfl⟩

/-- Nodes that are written for values of one kind are read together. -/
theorem mapM_map {ε α : Type} {read : Node → Except ε α} {write : α → Node} {as : List α}
    (h : ∀ a ∈ as, read (write a) = .ok a) : (as.map write).mapM read = .ok as := by
  induction as with
  | nil => rfl
  | cons a as ih =>
    obtain ⟨ha, has⟩ := List.forall_mem_cons.mp h
    rw [List.map_cons, List.mapM_cons, ha, ok_bind, ih has]
    rfl

/-- What is read of several nodes is each read of one. -/
theorem exists_of_mapM {ε α : Type} {read : Node → Except ε α} {ns : List Node} {as : List α}
    (h : ns.mapM read = .ok as) : ∀ a ∈ as, ∃ n ∈ ns, read n = .ok a := by
  induction ns generalizing as with
  | nil =>
    cases h
    simp
  | cons n ns ih =>
    rw [List.mapM_cons] at h
    obtain ⟨a, ha, h⟩ := bind_eq_ok.mp h
    obtain ⟨rest, hrest, h⟩ := bind_eq_ok.mp h
    cases h
    refine List.forall_mem_cons.mpr ⟨⟨n, List.mem_cons_self .., ha⟩, ?_⟩
    intro b hb
    obtain ⟨m, hm, hread⟩ := ih hrest b hb
    exact ⟨m, List.mem_cons_of_mem _ hm, hread⟩

/-- Children that all have the name are all taken, and none of those that have another. -/
theorem childrenNamed_append {tag name : String} {cs ds : List Node}
    (hcs : ∀ c ∈ cs, c.name = name) (hds : ∀ d ∈ ds, d.name ≠ name) :
    (branch tag (cs ++ ds)).childrenNamed name = cs := by
  unfold childrenNamed branch
  rw [List.filter_append, List.filter_eq_self.mpr (by simpa using hcs),
    List.filter_eq_nil_iff.mpr (by simpa using hds), List.append_nil]

theorem childrenNamed_branch {tag name : String} {cs : List Node} (h : ∀ c ∈ cs, c.name = name) :
    (branch tag cs).childrenNamed name = cs := by
  have hall : (branch tag (cs ++ [])).childrenNamed name = cs := childrenNamed_append h (by simp)
  rwa [List.append_nil] at hall

theorem name_of_child? {n c : Node} {name : String} (h : n.child? name = some c) :
    c.name = name := by
  simpa using List.find?_some h

end Node

end Rendezvous
