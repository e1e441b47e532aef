import Rendezvous.Proofs.Service.Interleaving
/-!
# Coming back while being evicted

A component has been asked at the end of its lease and is lost. Its lease is taken away at once, and
it is evicted under the lock later; between the two, before and after, it may register again, and
its updates and renewals may go on, in any order. Whatever the order is, when nothing goes on any
more the component is registered as it was stored last, with the lease that was started last, if any
of these calls has succeeded, and gone if none has (`Interleaving.kept_iff_armed`).

The invariant goes by how far the eviction is (`Stage`). Until then the component is registered. An
eviction that finds no lease has the lock, so that none starts until the component is gone; from
then on it can only register.
-/

namespace Rendezvous

namespace Interleaving

open Scene

/-- The description that an event stores. -/
def Event.description? : Event → Option Component
  | .stored c => some c
  | .armed _ => none

/-- The lease that an event starts. -/
def Event.lease? : Event → Option LeaseEntry
  | .stored _ => none
  | .armed e => some e

/-- The description that was stored last, after the one that there was at first. -/
def lastStored (first : Component) (events : List Event) : Component :=
  (events.filterMap Event.description?).getLast?.getD first

/-- The lease that was started last. -/
def lastArmed (events : List Event) : Option LeaseEntry :=
  (events.filterMap Event.lease?).getLast?

section Events

variable (first c : Component) (e : LeaseEntry) (events : List Event)

@[simp] theorem lastStored_stored : lastStored first (events ++ [.stored c]) = c := by
  simp [lastStored, Event.description?]

@[simp] theorem lastStored_armed :
    lastStored first (events ++ [.armed e]) = lastStored first events := by
  simp [lastStored, Event.description?]

@[simp] theorem lastArmed_stored : lastArmed (events ++ [.stored c]) = lastArmed events := by
  simp [lastArmed, Event.lease?]

@[simp] theorem lastArmed_armed : lastArmed (events ++ [.armed e]) = some e := by
  simp [lastArmed, Event.lease?]

end Events

/-! ## The calls that keep a component -/

/-- Whether a task keeps the component with a lease: a registration, a renewal, or an update that
asks for a lease. -/
def Task.Keeps (id : ComponentId) : Task → Prop
  | .register c _ => c.id = id
  | .update _ _ lease => lease.isSome = true
  | .renew _ => True
  | _ => False

/-- Whether it is such a task that has the lock. -/
def Guarded.Keeps (id : ComponentId) : Guarded → Prop
  | .first t => t.Keeps id
  | .arm _ | .leave => True
  | _ => False

/-- Whether it is such a task that waits for the lock. -/
def Call.Keeps (id : ComponentId) : Call → Prop
  | .wait t => t.Keeps id
  | _ => False

/-- All that a step of such a task can do to the description and the lease. -/
inductive Guarded.Does (id : ComponentId) (stored : Option Component) (lease : Option LeaseEntry) :
    Guarded → Option Guarded → Option Component → Option LeaseEntry → Option Event → Prop
  | nothing {g : Guarded} {next : Option Guarded} (hnext : next = some .leave ∨ next = none)
      (h : ∀ requested, g ≠ .arm requested) : Does id stored lease g next stored lease none
  | stores (t : Task) (requested : Option Lease) (c : Component) (own : c.id = id) :
      Does id stored lease (.first t) (some (.arm requested)) (some c) lease (some (.stored c))
  | finds (t : Task) (requested : Option Lease) (h : stored ≠ none) :
      Does id stored lease (.first t) (some (.arm requested)) stored lease none
  | arms (requested : Option Lease) (e : LeaseEntry) (running : e.phase = .active) :
      Does id stored lease (.arm requested) (some .leave) stored (some e) (some (.armed e))

section Steps

variable {id : ComponentId} {s : Stores}

/-- The description of a component in the stores. -/
def Stores.stored (s : Stores) (id : ComponentId) : Option Component :=
  s.registry.directory.get? id

/-- The lease of a component in the stores. -/
def Stores.lease (s : Stores) (id : ComponentId) : Option LeaseEntry := s.leases.get? id

/-- A step of a task that keeps the component is one of these. -/
theorem Guarded.Keeps.does (now : Instant) {g : Guarded} (keeps : g.Keeps id)
    (own : ∀ c, s.stored id = some c → c.id = id) :
    g.Does id (s.stored id) (s.lease id) (g.step now id s).1 ((g.step now id s).2.stored id)
      ((g.step now id s).2.lease id) (g.event? now id s) := by
  have fails (t : Task) (h : (Guarded.first t).step now id s =
        (some .leave, { s with registry := s.registry.after s.registry.directory }))
      (hevent : (Guarded.first t).event? now id s = none) :
      (Guarded.first t).Does id (s.stored id) (s.lease id) ((Guarded.first t).step now id s).1
        (((Guarded.first t).step now id s).2.stored id)
        (((Guarded.first t).step now id s).2.lease id) ((Guarded.first t).event? now id s) := by
    rw [h, hevent]
    exact .nothing (.inl rfl) (by simp)
  cases g with
  | arm requested =>
    have hlease : ((Guarded.arm requested).step now id s).2.lease id =
        some (s.leases.arm now id requested).1 := by
      show (s.leases.arm now id requested).2.get? id = _
      rw [LeaseTable.get?_arm, if_pos rfl]
    rw [hlease]
    exact .arms requested _ rfl
  | leave => exact .nothing (.inr rfl) (by simp)
  | cancel => cases keeps
  | remove => cases keeps
  | first t =>
    cases t with
    | unregister => cases keeps
    | evict => cases keeps
    | register c lease =>
      have hown : c.id = id := keeps
      rcases s.registry.add_cases c with ⟨e, h⟩ | ⟨previous, d, hop, h⟩
      · refine fails _ ?_ ?_
        · simp only [Guarded.step, h]
        · simp only [Guarded.event?, h]
          rfl
      · have hget : d.get? id = some c := by
          rw [Directory.get?_insert hop, if_pos hown.symm]
        simp only [Guarded.step, Guarded.event?, h, Stores.stored, Registry.after_directory, hget]
        exact .stores _ lease c hown
    | update delta mode lease =>
      rcases s.registry.update_cases id delta mode with ⟨e, h⟩ | ⟨updated, d, hop, h⟩
      · refine fails _ ?_ ?_
        · simp only [Guarded.step, h]
        · simp only [Guarded.event?, h]
          rfl
      · obtain ⟨c, hstored, -, rfl, rfl⟩ := Directory.update_eq_ok.mp hop
        have hown : (c.update delta mode).id = id := own c hstored
        obtain ⟨l, rfl⟩ := Option.isSome_iff_exists.mp keeps
        have hget : ((s.registry.directory.remove id).2.place (c.update delta mode)).get? id =
            some (c.update delta mode) := by
          rw [Directory.get?_place, if_pos hown.symm]
        simp only [Guarded.step, Guarded.event?, h, Stores.stored, Registry.after_directory, hget]
        exact .stores _ (some l) (c.update delta mode) hown
    | renew lease =>
      rcases s.registry.contains_cases id with ⟨e, -, h⟩ | h
      · refine fails _ ?_ rfl
        simp only [Guarded.step, h]
      · cases hcontains : s.registry.directory.contains id with
        | false =>
          rw [hcontains] at h
          refine fails _ ?_ rfl
          simp only [Guarded.step, h]
        | true =>
          rw [hcontains] at h
          have hstored : s.stored id ≠ none := by
            rw [Directory.contains_eq_isSome] at hcontains
            exact Option.isSome_iff_ne_none.mp hcontains
          simp only [Guarded.step, h]
          exact .finds _ _ hstored

end Steps

/-! ## The invariant -/

/-- What holds of the stored description and the lease, with the lease `before` until one has been
started, and the component `gone` perhaps if none has. -/
structure Upheld (first : Component) (before : Option LeaseEntry) (gone : Prop)
    (holder : Option Guarded) (stored : Option Component) (lease : Option LeaseEntry)
    (events : List Event) : Prop where
  own : (lastStored first events).id = first.id
  present : stored = some (lastStored first events) ∨
    (gone ∧ stored = none ∧ lastArmed events = none)
  leased : lease = (lastArmed events).or before
  running : ∀ e, lastArmed events = some e → e.phase = .active
  arming : ∀ requested, holder = some (.arm requested) → stored ≠ none

section Upholding

variable {first : Component} {before : Option LeaseEntry} {gone : Prop}
  {holder next : Option Guarded} {stored stored' : Option Component}
  {lease lease' : Option LeaseEntry} {events : List Event} {event? : Option Event} {g : Guarded}

theorem Upheld.own_stored (upheld : Upheld first before gone holder stored lease events) :
    ∀ c, stored = some c → c.id = first.id := by
  intro c hc
  rcases upheld.present with h | ⟨-, hnone, -⟩
  · cases hc.symm.trans h
    exact upheld.own
  · cases hc.symm.trans hnone

/-- It does not depend on who has the lock, but for who is about to start the lease. -/
theorem Upheld.pass (upheld : Upheld first before gone holder stored lease events)
    (h : ∀ requested, next ≠ some (.arm requested)) :
    Upheld first before gone next stored lease events where
  own := upheld.own
  present := upheld.present
  leased := upheld.leased
  running := upheld.running
  arming requested hnext := absurd hnext (h requested)

/-- Of the lease that there was before nothing is left once another one has been started. -/
theorem Upheld.close (upheld : Upheld first before gone holder stored lease events)
    (h : lastArmed events = none → before = none) :
    Upheld first none True holder stored lease events where
  own := upheld.own
  present := upheld.present.imp_right fun h => ⟨trivial, h.2⟩
  leased := by
    rw [upheld.leased]
    cases harmed : lastArmed events with
    | none => rw [h harmed]
    | some e => rfl
  running := upheld.running
  arming := upheld.arming

theorem Upheld.does (upheld : Upheld first before gone (some g) stored lease events)
    (does : g.Does first.id stored lease next stored' lease' event?) :
    Upheld first before gone next stored' lease' (events ++ event?.toList) := by
  cases does with
  | nothing hnext h =>
    rw [Option.toList_none, List.append_nil]
    refine upheld.pass fun requested harm => ?_
    rcases hnext with rfl | rfl
    · cases harm
    · cases harm
  | stores t requested c own =>
    exact ⟨by simpa using own, .inl (by simp), by simpa using upheld.leased,
      by simpa using upheld.running, fun _ _ => Option.some_ne_none _⟩
  | finds t requested h =>
    rw [Option.toList_none, List.append_nil]
    exact ⟨upheld.own, upheld.present, upheld.leased, upheld.running, fun _ _ => h⟩
  | arms requested e running =>
    have hstored : stored = some (lastStored first events) :=
      upheld.present.resolve_right fun h => upheld.arming requested rfl h.2.1
    refine ⟨by simpa using upheld.own, .inl (by simpa using hstored), by simp, ?_, ?_⟩
    · intro e' he'
      rw [Option.toList_some, lastArmed_armed] at he'
      cases he'
      exact running
    · intro _ h
      cases h

theorem Guarded.Does.keeps {id : ComponentId}
    (does : g.Does id stored lease next stored' lease' event?) :
    ∀ g', next = some g' → g'.Keeps id := by
  rintro g' rfl
  cases does with
  | nothing hnext h =>
    rcases hnext with hleave | hnone
    · cases hleave
      trivial
    · cases hnone
  | stores | finds | arms => trivial

/-- Whether it is settled what becomes of the component: it has a lease or is about to have one, or
it is gone, or that it goes may fail. -/
def Decided (fallible : Prop) (holder : Option Guarded) (stored : Option Component)
    (events : List Event) : Prop :=
  lastArmed events ≠ none ∨ stored = none ∨ (∃ requested, holder = some (.arm requested)) ∨ fallible

theorem Decided.does {fallible : Prop} {id : ComponentId}
    (decided : Decided fallible (some g) stored events)
    (does : g.Does id stored lease next stored' lease' event?) :
    Decided fallible next stored' (events ++ event?.toList) := by
  cases does with
  | nothing hnext h =>
    rw [Option.toList_none, List.append_nil]
    rcases decided with harmed | hgone | ⟨requested, hg⟩ | hfallible
    · exact .inl harmed
    · exact .inr (.inl hgone)
    · exact absurd (Option.some.inj hg) (h requested)
    · exact .inr (.inr (.inr hfallible))
  | stores t requested => exact .inr (.inr (.inl ⟨requested, rfl⟩))
  | finds t requested => exact .inr (.inr (.inl ⟨requested, rfl⟩))
  | arms requested e => exact .inl (by simp)

end Upholding

/-- How far the eviction is. -/
inductive Stage (first : Component) (asked : LeaseEntry) (outcome : HandshakeOutcome)
    (faults : FaultPlan) (s : Stores) (holder : Option Guarded) (calls : Multiset Call)
    (events : List Event) : Prop
  /-- The outcome is still to be taken note of. -/
  | asked (others : Multiset Call)
      (hcalls : calls = .completion asked.generation outcome ::ₘ others)
      (waiting : ∀ call ∈ others, call.Keeps first.id)
      (inside : ∀ g, holder = some g → g.Keeps first.id)
      (upheld : Upheld first (some asked) False holder (s.stored first.id) (s.lease first.id)
        events)
  /-- The lease has been taken away, and the eviction waits for the lock. -/
  | condemned (others : Multiset Call) (hcalls : calls = .wait .evict ::ₘ others)
      (waiting : ∀ call ∈ others, call.Keeps first.id)
      (inside : ∀ g, holder = some g → g.Keeps first.id)
      (upheld : Upheld first none False holder (s.stored first.id) (s.lease first.id) events)
  /-- The eviction looks for a lease. -/
  | looking (hholder : holder = some (.first .evict))
      (waiting : ∀ call ∈ calls, call.Keeps first.id)
      (upheld : Upheld first none False holder (s.stored first.id) (s.lease first.id) events)
  /-- The eviction has found none. -/
  | removing (hholder : holder = some .remove) (waiting : ∀ call ∈ calls, call.Keeps first.id)
      (upheld : Upheld first none False holder (s.stored first.id) (s.lease first.id) events)
      (unarmed : lastArmed events = none)
  /-- The eviction is over, or there is none. -/
  | ended (waiting : ∀ call ∈ calls, call.Keeps first.id)
      (inside : ∀ g, holder = some g → g.Keeps first.id)
      (upheld : Upheld first none True holder (s.stored first.id) (s.lease first.id) events)
      (decided : Decided (∃ n, faults n .remove ≠ none) holder (s.stored first.id) events)

section Stages

variable {first : Component} {asked : LeaseEntry} {outcome : HandshakeOutcome}
  {faults : FaultPlan} {s : Stores} {holder : Option Guarded} {calls rest : Multiset Call}
  {events : List Event}

theorem keeps_first {t : Task} {id : ComponentId} (h : t.Keeps id) :
    ∀ g, some (Guarded.first t) = some g → g.Keeps id := by
  rintro _ ⟨⟩
  exact h

theorem keeps_leave {id : ComponentId} :
    ∀ g, some Guarded.leave = some g → g.Keeps id := by
  rintro _ ⟨⟩
  trivial

/-- A task takes the lock. -/
theorem Stage.enter {t : Task}
    (stage : Stage first asked outcome faults s none (.wait t ::ₘ rest) events) :
    Stage first asked outcome faults s (some (.first t)) rest events := by
  cases stage with
  | asked others hcalls waiting inside upheld =>
    rcases Multiset.cons_eq_cons.mp hcalls with ⟨h, -⟩ | ⟨-, others', rfl, rfl⟩
    · cases h
    · obtain ⟨keeps, waiting'⟩ := Multiset.forall_mem_cons.mp waiting
      exact .asked others' rfl waiting' (keeps_first keeps) (upheld.pass (by simp))
  | condemned others hcalls waiting inside upheld =>
    rcases Multiset.cons_eq_cons.mp hcalls with ⟨h, rfl⟩ | ⟨-, others', rfl, rfl⟩
    · cases h
      exact .looking rfl waiting (upheld.pass (by simp))
    · obtain ⟨keeps, waiting'⟩ := Multiset.forall_mem_cons.mp waiting
      exact .condemned others' rfl waiting' (keeps_first keeps) (upheld.pass (by simp))
  | looking hholder => cases hholder
  | removing hholder => cases hholder
  | ended waiting inside upheld decided =>
    obtain ⟨keeps, waiting'⟩ := Multiset.forall_mem_cons.mp waiting
    refine .ended waiting' (keeps_first keeps) (upheld.pass (by simp)) ?_
    rcases decided with h | h | ⟨requested, h⟩ | h
    · exact .inl h
    · exact .inr (.inl h)
    · cases h
    · exact .inr (.inr (.inr h))

/-- A step under the lock. -/
theorem Stage.inside (now : Instant) {g : Guarded} (hfaults : s.registry.faults = faults)
    (stage : Stage first asked outcome faults s (some g) calls events) :
    Stage first asked outcome faults (g.step now first.id s).2 (g.step now first.id s).1 calls
      (events ++ (g.event? now first.id s).toList) := by
  cases stage with
  | asked others hcalls waiting inside upheld =>
    have does := (inside g rfl).does now upheld.own_stored
    exact .asked others hcalls waiting does.keeps (upheld.does does)
  | condemned others hcalls waiting inside upheld =>
    have does := (inside g rfl).does now upheld.own_stored
    exact .condemned others hcalls waiting does.keeps (upheld.does does)
  | looking hholder waiting upheld =>
    cases hholder
    rw [show (Guarded.first .evict).event? now first.id s = none from rfl, Option.toList_none,
      List.append_nil]
    cases hlease : s.leases.get? first.id with
    | none =>
      have hstep : (Guarded.first .evict).step now first.id s = (some .remove, s) := by
        simp only [Guarded.step, hlease, Option.isSome_none, Bool.false_eq_true, ↓reduceIte]
      have hnone : (lastArmed events).or none = none := upheld.leased.symm.trans hlease
      rw [hstep]
      exact .removing rfl waiting (upheld.pass (by simp)) (by simpa using hnone)
    | some e =>
      have hstep : (Guarded.first .evict).step now first.id s = (some .leave, s) := by
        simp only [Guarded.step, hlease, Option.isSome_some, ↓reduceIte]
      have hsome : (lastArmed events).or none = some e := upheld.leased.symm.trans hlease
      have harmed : lastArmed events ≠ none := fun hnone => by
        rw [hnone] at hsome
        cases hsome
      rw [hstep]
      exact .ended waiting keeps_leave ((upheld.pass (by simp)).close fun _ => rfl) (.inl harmed)
  | removing hholder waiting upheld unarmed =>
    cases hholder
    rw [show Guarded.remove.event? now first.id s = none from rfl, Option.toList_none,
      List.append_nil]
    have upheld' : Upheld first none True (some .leave) (s.stored first.id) (s.lease first.id)
        events := (upheld.pass (by simp)).close fun _ => rfl
    rcases s.registry.remove_cases first.id with ⟨e, ⟨reason, hreason⟩, h⟩ | h
    · have hstored : (Guarded.remove.step now first.id s).2.stored first.id = s.stored first.id := by
        simp only [Guarded.step, h, Stores.stored, Registry.after_directory]
      have hfallible : faults s.registry.calls .remove ≠ none := by
        rw [← hfaults, hreason]
        exact Option.some_ne_none _
      refine .ended waiting keeps_leave ?_ (.inr (.inr (.inr ⟨_, hfallible⟩)))
      rw [hstored]
      exact upheld'
    · have hgone : (Guarded.remove.step now first.id s).2.stored first.id = none := by
        simp only [Guarded.step, h, Stores.stored, Registry.after_directory]
        rw [Directory.get?_remove, if_pos rfl]
      refine .ended waiting keeps_leave ?_ (.inr (.inl hgone))
      exact
        { upheld' with
          present := .inr ⟨trivial, hgone, unarmed⟩
          arming := fun _ h => by cases h }
  | ended waiting inside upheld decided =>
    have does := (inside g rfl).does now upheld.own_stored
    exact .ended waiting does.keeps (upheld.does does) (decided.does does)

/-- The outcome is taken note of: it takes the lease away, unless another one has been started since,
for which nobody has asked. -/
theorem Stage.conclude (now : Instant) (lost : ∀ lease, outcome ≠ .renewed lease)
    (handshaking : asked.phase = .handshaking) (waiting : ∀ call ∈ rest, call.Keeps first.id)
    (inside : ∀ g, holder = some g → g.Keeps first.id)
    (upheld : Upheld first (some asked) False holder (s.stored first.id) (s.lease first.id)
      events) :
    Stage first asked outcome faults
      ((Call.completion asked.generation outcome).step now first.id s).2 holder
      (join ((Call.completion asked.generation outcome).step now first.id s).1 rest) events := by
  have hlease : s.leases.get? first.id = (lastArmed events).or (some asked) := upheld.leased
  cases harmed : lastArmed events with
  | none =>
    rw [harmed, Option.none_or] at hlease
    have hawaiting : s.leases.isAwaiting ⟨first.id, asked.generation⟩ = true :=
      LeaseTable.isAwaiting_iff.mpr ⟨asked, hlease, rfl, handshaking⟩
    have hstep : (Call.completion asked.generation outcome).step now first.id s =
        (some (.wait .evict), { s with leases := s.leases.drop first.id }) := by
      cases outcome with
      | renewed lease => exact absurd rfl (lost lease)
      | ended => simp only [Call.step, hawaiting, ↓reduceIte]
      | failed reason => simp only [Call.step, hawaiting, ↓reduceIte]
    have hdropped : (s.leases.drop first.id).get? first.id = none := by
      rw [LeaseTable.get?_drop, if_pos rfl]
    rw [hstep]
    refine .condemned rest rfl waiting inside { upheld with leased := ?_ }
    rw [harmed]
    exact hdropped
  | some e =>
    rw [harmed, Option.some_or] at hlease
    have hstale : s.leases.isAwaiting ⟨first.id, asked.generation⟩ = false := by
      by_contra hawaiting
      obtain ⟨e', he', -, hphase⟩ :=
        LeaseTable.isAwaiting_iff.mp (Bool.not_eq_false _ ▸ hawaiting)
      cases hlease.symm.trans he'
      cases (upheld.running e harmed).symm.trans hphase
    have hstep : (Call.completion asked.generation outcome).step now first.id s = (none, s) := by
      simp only [Call.step, hstale, Bool.false_eq_true, ↓reduceIte]
    have hne : lastArmed events ≠ none := harmed.symm ▸ Option.some_ne_none e
    rw [hstep]
    exact .ended waiting inside (upheld.close fun hnone => absurd hnone hne) (.inl hne)

/-- A step without the lock. -/
theorem Stage.outside (now : Instant) {call : Call} (lost : ∀ lease, outcome ≠ .renewed lease)
    (handshaking : asked.phase = .handshaking)
    (stage : Stage first asked outcome faults s holder (call ::ₘ rest) events) :
    Stage first asked outcome faults (call.step now first.id s).2 holder
      (join (call.step now first.id s).1 rest) events := by
  -- A task that waits goes on waiting.
  have idle (h : ∃ t, call = .wait t) :
      Stage first asked outcome faults (call.step now first.id s).2 holder
        (join (call.step now first.id s).1 rest) events := by
    obtain ⟨t, rfl⟩ := h
    exact stage
  have waits (h : call.Keeps first.id) : ∃ t, call = .wait t := by
    cases call with
    | wait t => exact ⟨t, rfl⟩
    | _ => cases h
  cases stage with
  | asked others hcalls waiting inside upheld =>
    rcases Multiset.cons_eq_cons.mp hcalls with ⟨rfl, rfl⟩ | ⟨-, others', rfl, rfl⟩
    · exact conclude now lost handshaking waiting inside upheld
    · exact idle (waits (Multiset.forall_mem_cons.mp waiting).1)
  | condemned others hcalls waiting inside upheld =>
    rcases Multiset.cons_eq_cons.mp hcalls with ⟨rfl, -⟩ | ⟨-, others', rfl, rfl⟩
    · exact idle ⟨_, rfl⟩
    · exact idle (waits (Multiset.forall_mem_cons.mp waiting).1)
  | looking hholder waiting upheld =>
    exact idle (waits (Multiset.forall_mem_cons.mp waiting).1)
  | removing hholder waiting upheld unarmed =>
    exact idle (waits (Multiset.forall_mem_cons.mp waiting).1)
  | ended waiting inside upheld decided =>
    exact idle (waits (Multiset.forall_mem_cons.mp waiting).1)

end Stages

/-! ## Whole runs -/

section Runs

variable {tolerated : Stray → Prop} {first : Component} {asked : LeaseEntry}
  {outcome : HandshakeOutcome} {origin : Stores} {others : Multiset Call} {events : List Event}
  {s : Scene}

/-- Which calls of the registry fail does not change. -/
theorem Guarded.step_faults (now : Instant) (id : ComponentId) (s : Stores) (g : Guarded) :
    (g.step now id s).2.registry.faults = s.registry.faults := by
  cases g with
  | arm | cancel | leave => rfl
  | remove =>
    rcases s.registry.remove_cases id with ⟨e, -, h⟩ | h
    · simp only [Guarded.step, h, Registry.after_faults]
    · simp only [Guarded.step, h, Registry.after_faults]
  | first t =>
    cases t with
    | evict => rfl
    | register c lease =>
      rcases s.registry.add_cases c with ⟨e, h⟩ | ⟨previous, d, -, h⟩
      · simp only [Guarded.step, h, Registry.after_faults]
      · simp only [Guarded.step, h, Registry.after_faults]
    | update delta mode lease =>
      rcases s.registry.update_cases id delta mode with ⟨e, h⟩ | ⟨c, d, -, h⟩
      · simp only [Guarded.step, h, Registry.after_faults]
      · cases lease <;> simp only [Guarded.step, h, Registry.after_faults]
    | renew lease =>
      rcases s.registry.contains_cases id with ⟨e, -, h⟩ | h
      · simp only [Guarded.step, h, Registry.after_faults]
      · cases hcontains : s.registry.directory.contains id <;>
          simp only [Guarded.step, h, hcontains, Registry.after_faults]
    | unregister =>
      rcases s.registry.remove_cases id with ⟨e, -, h⟩ | h
      · simp only [Guarded.step, h, Registry.after_faults]
      · cases hget : s.registry.directory.get? id <;>
          simp only [Guarded.step, h, hget, Registry.after_faults]

theorem Call.step_faults (now : Instant) (id : ComponentId) (s : Stores) (call : Call) :
    (call.step now id s).2.registry.faults = s.registry.faults := by
  cases call with
  | wait | lateCancel | lateArm => rfl
  | expiry g =>
    simp only [Call.step]
    split <;> rfl
  | lookUp g =>
    rcases s.registry.get_cases id with ⟨e, -, h⟩ | h
    · simp only [Call.step, h, Registry.after_faults]
    · cases hget : s.registry.directory.get? id <;>
        simp only [Call.step, h, hget, Registry.after_faults]
  | completion g outcome =>
    simp only [Call.step]
    split
    · cases outcome <;> rfl
    · rfl

/-- Every run that begins with the outcome, and with calls that keep the component, goes through
the stages. -/
theorem stage_of_run (stored : origin.stored first.id = some first)
    (leased : origin.lease first.id = some asked) (handshaking : asked.phase = .handshaking)
    (lost : ∀ lease, outcome ≠ .renewed lease) (keeps : ∀ call ∈ others, call.Keeps first.id)
    (run : Run tolerated first.id
      ⟨origin, none, .completion asked.generation outcome ::ₘ others⟩ events s) :
    s.stores.registry.faults = origin.registry.faults ∧
      Stage first asked outcome origin.registry.faults s.stores s.holder s.calls events := by
  induction run with
  | refl =>
    refine ⟨rfl, .asked others rfl keeps (fun _ h => by cases h) ⟨rfl, .inl stored, leased, ?_, ?_⟩⟩
    · exact fun _ h => by cases h
    · exact fun _ h => by cases h
  | enter t _ ih => exact ⟨ih.1, ih.2.enter⟩
  | inside now g _ ih =>
    exact ⟨(g.step_faults now first.id _).trans ih.1, ih.2.inside now ih.1⟩
  | outside now call _ _ ih =>
    exact ⟨(call.step_faults now first.id _).trans ih.1, ih.2.outside now lost handshaking⟩

/-- A component has been asked at the end of its lease, and is lost. Whatever registrations,
renewals and updates with a lease there are besides, and however their steps and those of the
eviction fall: when nothing goes on any more and one of them has succeeded, the component is
registered as it was stored last, and has the lease that was started last, which runs. If none has
succeeded, it has no lease, and it is not registered, if removals do not fail. -/
theorem kept_iff_armed (stored : origin.stored first.id = some first)
    (leased : origin.lease first.id = some asked) (handshaking : asked.phase = .handshaking)
    (lost : ∀ lease, outcome ≠ .renewed lease) (keeps : ∀ call ∈ others, call.Keeps first.id)
    (run : Run tolerated first.id
      ⟨origin, none, .completion asked.generation outcome ::ₘ others⟩ events s)
    (rest : s.AtRest) :
    (∀ e, lastArmed events = some e →
      s.stores.stored first.id = some (lastStored first events) ∧
        s.stores.lease first.id = some e ∧ e.phase = .active) ∧
    (lastArmed events = none →
      s.stores.lease first.id = none ∧
        ((∀ n, origin.registry.faults n .remove = none) → s.stores.stored first.id = none)) := by
  obtain ⟨hholder, hcalls⟩ := rest
  obtain ⟨-, stage⟩ := stage_of_run stored leased handshaking lost keeps run
  rw [hholder, hcalls] at stage
  cases stage with
  | asked others h => exact absurd h (Multiset.zero_ne_cons)
  | condemned others h => exact absurd h (Multiset.zero_ne_cons)
  | looking h => cases h
  | removing h => cases h
  | ended waiting inside upheld decided =>
    refine ⟨fun e he => ⟨?_, ?_, upheld.running e he⟩, fun hnone => ⟨?_, fun infallible => ?_⟩⟩
    · refine upheld.present.resolve_right fun h => ?_
      cases he.symm.trans h.2.2
    · rw [upheld.leased, he]
      rfl
    · rw [upheld.leased, hnone]
      rfl
    · rcases decided with harmed | hgone | ⟨requested, h⟩ | ⟨n, hfallible⟩
      · exact absurd hnone harmed
      · exact hgone
      · cases h
      · exact absurd (infallible n) hfallible

/-- A lamp whose lease has ended registers again before it is evicted, and stays. -/
theorem kept_iff_armed_lamp :
    let lamp : Component := { id := ⟨"lamp"⟩, kind := .widget }
    let lamp' : Component := { lamp with version := "2.0" }
    let start : Mediator NoJournal := .new {} ⟨⟩ Text.ofNat fun n => ⟨.supply 0 n⟩
    let m := (start.perform ⟨0⟩ (.register lamp none)).perform (.ofMillis 60000)
      (.handleExpiry ⟨lamp.id, 1⟩)
    ∃ (s : Scene) (e : LeaseEntry),
      Run (fun _ => True) lamp.id
        ⟨m.stores, none, .completion 1 .ended ::ₘ .wait (.register lamp' none) ::ₘ 0⟩
        [.stored lamp', .armed e] s ∧
      s.AtRest ∧ s.stores.stored lamp.id = some lamp' ∧ s.stores.lease lamp.id = some e ∧
      e.phase = .active := by
  intro lamp lamp' start m
  let asked : LeaseEntry := ⟨.ofMillis 60000, .ofMillis 60000, 1, .handshaking⟩
  have stored : m.stores.stored lamp.id = some lamp := by decide +kernel
  have leased : m.stores.lease lamp.id = some asked := by decide +kernel
  -- Its lease is taken away, and the eviction waits for the lock.
  let dropped : Mediator NoJournal := { m with leases := m.leases.drop lamp.id }
  have hstep : (Call.completion 1 .ended).step ⟨0⟩ lamp.id m.stores =
      (some (.wait .evict), dropped.stores) := by
    have hawaiting : m.stores.leases.isAwaiting ⟨lamp.id, 1⟩ = true := by decide +kernel
    simp only [Call.step, hawaiting, ↓reduceIte]
    rfl
  -- The lamp registers, which starts its lease anew.
  obtain ⟨entry, hregister⟩ : ∃ entry, Run (fun _ => True) lamp.id
      ⟨dropped.stores, none, .wait (.register lamp' none) ::ₘ .wait .evict ::ₘ 0⟩
      [.stored lamp', .armed entry]
      ⟨(dropped.register ⟨0⟩ lamp' none).2.stores, none, .wait .evict ::ₘ 0⟩ := by
    rcases dropped.register_run ⟨0⟩ lamp' none with ⟨e, hfailed, -⟩ | ⟨entry, -, hrun⟩
    · have hgranted : (dropped.register ⟨0⟩ lamp' none).1 = .ok (.ofMillis 60000) := by
        decide +kernel
      cases hfailed.symm.trans hgranted
    · exact ⟨entry, hrun⟩
  -- The eviction finds the lease.
  have hlook : (Guarded.first .evict).step ⟨0⟩ lamp.id (dropped.register ⟨0⟩ lamp' none).2.stores =
      (some .leave, (dropped.register ⟨0⟩ lamp' none).2.stores) := by
    have hfound : (((dropped.register ⟨0⟩ lamp' none).2.stores.leases.get? lamp.id).isSome) =
        true := by decide +kernel
    simp only [Guarded.step, hfound, ↓reduceIte]
  have hrun : Run (fun _ => True) lamp.id
      ⟨m.stores, none, .completion 1 .ended ::ₘ .wait (.register lamp' none) ::ₘ 0⟩
      [.stored lamp', .armed entry] ⟨(dropped.register ⟨0⟩ lamp' none).2.stores, none, 0⟩ := by
    refine run_outside ⟨0⟩ rfl hstep ?_
    show Run _ _ ⟨_, _, .wait .evict ::ₘ .wait (.register lamp' none) ::ₘ 0⟩ _ _
    rw [Multiset.cons_swap]
    exact hregister.trans (run_enter ⟨0⟩ hlook rfl run_leave)
  have lost : ∀ lease, HandshakeOutcome.ended ≠ .renewed lease := fun _ h => by cases h
  have keeps : ∀ call ∈ Call.wait (.register lamp' none) ::ₘ 0, call.Keeps lamp.id := by
    intro call hcall
    rw [Multiset.mem_singleton.mp hcall]
    rfl
  exact ⟨_, entry, hrun, ⟨rfl, rfl⟩,
    (kept_iff_armed stored leased rfl lost keeps hrun ⟨rfl, rfl⟩).1 entry rfl⟩

end Runs

end Interleaving

end Rendezvous
