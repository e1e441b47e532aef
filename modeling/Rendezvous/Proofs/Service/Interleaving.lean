import Mathlib.Data.Multiset.Count
import Mathlib.Logic.Relation
import Rendezvous.Proofs.Service.Operation
/-!
# Calls that run side by side

The operations about one component taken apart, each into its calls of the registry and of the lease
table and the taking and giving back of the lock of the component. A `Task` is done under the lock;
how far it is there is a `Guarded`. All else that is going on is a `Call`: a task that waits for the
lock, an expiry that is handled, or a completion. Of these the last two change leases without the
lock. In a `Scene` at most one task has the lock, and calls begin and go on in any order.

An operation that nothing comes between does what it does as a whole (`Mediator.perform_steps`).
Two steps may find the leases other than when it was decided to take them (`Stray`): the
cancellation at the end of an expiry, of a lease that was armed since, and the arming at the end of
a handshake, where there is no lease any more.
-/

namespace Rendezvous

namespace Interleaving

/-- What the calls share. -/
structure Stores where
  registry : Registry
  leases : LeaseTable

/-- What is done under the lock. -/
inductive Task
  | register (c : Component) (lease : Option Lease)
  | update (delta : Attributes) (mode : UpdateMode) (lease : Option Lease)
  | renew (lease : Lease)
  | unregister
  | evict

/-- What a task that has the lock does next. -/
inductive Guarded
  /-- What it does first: a call of the registry or, to evict, a look at the lease. -/
  | first (t : Task)
  /-- It starts the lease anew. -/
  | arm (requested : Option Lease)
  /-- It ends the lease of the component that it has removed. -/
  | cancel
  /-- It removes the component, whose lease it has not found. -/
  | remove
  /-- It gives the lock back. -/
  | leave

/-- What a call that does not have the lock does next. -/
inductive Call
  /-- It waits for the lock. -/
  | wait (t : Task)
  | expiry (generation : Nat)
  /-- The handshake has begun, and the component is looked up. -/
  | lookUp (generation : Nat)
  /-- The component was not found, and its lease is to go. -/
  | lateCancel (generation : Nat)
  | completion (generation : Nat) (outcome : HandshakeOutcome)
  /-- The answer was awaited, and the lease is to start anew. -/
  | lateArm (lease : Lease)

/-- One step of a task that has the lock: what it does next, if it has not given the lock back, and
the stores after it. -/
def Guarded.step (now : Instant) (id : ComponentId) (s : Stores) :
    Guarded → Option Guarded × Stores
  | .first (.register c lease) =>
    match s.registry.add c with
    | (.error _, registry) => (some .leave, { s with registry })
    | (.ok _, registry) => (some (.arm lease), { s with registry })
  | .first (.update delta mode lease) =>
    match s.registry.update id delta mode, lease with
    | (.error _, registry), _ => (some .leave, { s with registry })
    | (.ok _, registry), none => (some .leave, { s with registry })
    | (.ok _, registry), some l => (some (.arm (some l)), { s with registry })
  | .first (.renew lease) =>
    match s.registry.contains id with
    | (.ok true, registry) => (some (.arm (some lease)), { s with registry })
    | (_, registry) => (some .leave, { s with registry })
  | .first .unregister =>
    match s.registry.remove id with
    | (.ok (some _), registry) => (some .cancel, { s with registry })
    | (_, registry) => (some .leave, { s with registry })
  | .first .evict => (some (if (s.leases.get? id).isSome then .leave else .remove), s)
  | .arm requested => (some .leave, { s with leases := (s.leases.arm now id requested).2 })
  | .cancel => (some .leave, { s with leases := (s.leases.cancel id).2 })
  | .remove => (some .leave, { s with registry := (s.registry.remove id).2 })
  | .leave => (none, s)

/-- One step of a call without the lock: what it does next, if it is not done, and the stores after
it. A call that waits for the lock stays as it is. -/
def Call.step (now : Instant) (id : ComponentId) (s : Stores) : Call → Option Call × Stores
  | .wait t => (some (.wait t), s)
  | .expiry g =>
    match s.leases.beginHandshake ⟨id, g⟩ with
    | (true, leases) => (some (.lookUp g), { s with leases })
    | (false, _) => (none, s)
  | .lookUp g =>
    match s.registry.get id with
    | (.ok (some _), registry) => (none, { s with registry })
    | (.ok none, registry) => (some (.lateCancel g), { s with registry })
    | (.error e, registry) =>
      (some (.completion g (.failed ("registry lookup failed: " ++ e.message))),
        { s with registry })
  | .lateCancel _ => (none, { s with leases := (s.leases.cancel id).2 })
  | .completion g outcome =>
    if s.leases.isAwaiting ⟨id, g⟩ then
      match outcome with
      | .renewed lease => (some (.lateArm lease), s)
      | _ => (some (.wait .evict), { s with leases := s.leases.drop id })
    else (none, s)
  | .lateArm lease => (none, { s with leases := (s.leases.arm now id (some lease)).2 })

/-- What a task leaves behind that registers, updates or renews. -/
inductive Event
  /-- A description is stored. -/
  | stored (c : Component)
  /-- A lease starts. -/
  | armed (e : LeaseEntry)

/-- What a step of a task that has the lock leaves behind, if it leaves anything. -/
def Guarded.event? (now : Instant) (id : ComponentId) (s : Stores) : Guarded → Option Event
  | .first (.register c _) => (s.registry.add c).1.toOption.map fun _ => .stored c
  | .first (.update delta mode _) => (s.registry.update id delta mode).1.toOption.map .stored
  | .arm requested => some (.armed (s.leases.arm now id requested).1)
  | _ => none

/-- The steps outside of the lock that act on leases other than those that they were decided on. -/
inductive Stray
  /-- A lease that was armed since is cancelled. -/
  | cancel
  /-- A lease is armed where there is none any more. -/
  | arm
deriving DecidableEq

/-- How the next step of a call is stray, if it is. -/
def Call.stray? (id : ComponentId) (s : Stores) : Call → Option Stray
  | .lateCancel g =>
    match s.leases.get? id with
    | some e => if e.generation = g then none else some .cancel
    | none => none
  | .lateArm _ => if (s.leases.get? id).isSome then none else some .arm
  | _ => none

/-- Whether a call is at its beginning. A component is registered under its own name. -/
def Call.IsStart (id : ComponentId) : Call → Prop
  | .wait (.register c _) => c.id = id
  | .wait _ | .expiry _ | .completion _ _ => True
  | _ => False

/-- The stores, the task that has the lock, and the calls that are going on besides. -/
structure Scene where
  stores : Stores
  holder : Option Guarded
  calls : Multiset Call

namespace Scene

/-- Nothing is registered, and nothing goes on. -/
def start (settings : LeaseSettings) : Scene := ⟨⟨{}, { settings }⟩, none, 0⟩

/-- Whether nothing goes on. -/
def AtRest (s : Scene) : Prop := s.holder = none ∧ s.calls = 0

/-- The calls with one more, unless it is done. -/
def join (next : Option Call) (calls : Multiset Call) : Multiset Call :=
  match next with
  | some call => call ::ₘ calls
  | none => calls

/-- One step of anyone. Of stray steps only those are taken that are tolerated. -/
inductive Step (tolerated : Stray → Prop) (id : ComponentId) : Scene → Scene → Prop
  | start {s : Stores} {holder : Option Guarded} {calls : Multiset Call} (call : Call)
      (h : call.IsStart id) : Step tolerated id ⟨s, holder, calls⟩ ⟨s, holder, call ::ₘ calls⟩
  | enter {s : Stores} {rest : Multiset Call} (t : Task) :
      Step tolerated id ⟨s, none, .wait t ::ₘ rest⟩ ⟨s, some (.first t), rest⟩
  | inside {s : Stores} {calls : Multiset Call} (now : Instant) (g : Guarded) :
      Step tolerated id ⟨s, some g, calls⟩ ⟨(g.step now id s).2, (g.step now id s).1, calls⟩
  | outside {s : Stores} {holder : Option Guarded} {rest : Multiset Call} (now : Instant)
      (call : Call) (h : ∀ k, call.stray? id s = some k → tolerated k) :
      Step tolerated id ⟨s, holder, call ::ₘ rest⟩
        ⟨(call.step now id s).2, holder, join (call.step now id s).1 rest⟩

/-- Any number of steps. -/
def Steps (tolerated : Stray → Prop) (id : ComponentId) : Scene → Scene → Prop :=
  Relation.ReflTransGen (Step tolerated id)

/-- Whether a scene can come about. -/
def Reachable (tolerated : Stray → Prop) (settings : LeaseSettings) (id : ComponentId)
    (s : Scene) : Prop :=
  Steps tolerated id (start settings) s

/-- Any number of steps of the calls that there are, and what the tasks among them leave behind, in
the order in which they have the lock. -/
inductive Run (tolerated : Stray → Prop) (id : ComponentId) (origin : Scene) :
    List Event → Scene → Prop
  | refl : Run tolerated id origin [] origin
  | enter {events : List Event} {s : Stores} {rest : Multiset Call} (t : Task)
      (h : Run tolerated id origin events ⟨s, none, .wait t ::ₘ rest⟩) :
      Run tolerated id origin events ⟨s, some (.first t), rest⟩
  | inside {events : List Event} {s : Stores} {calls : Multiset Call} (now : Instant) (g : Guarded)
      (h : Run tolerated id origin events ⟨s, some g, calls⟩) :
      Run tolerated id origin (events ++ (g.event? now id s).toList)
        ⟨(g.step now id s).2, (g.step now id s).1, calls⟩
  | outside {events : List Event} {s : Stores} {holder : Option Guarded} {rest : Multiset Call}
      (now : Instant) (call : Call) (hstray : ∀ k, call.stray? id s = some k → tolerated k)
      (h : Run tolerated id origin events ⟨s, holder, call ::ₘ rest⟩) :
      Run tolerated id origin events
        ⟨(call.step now id s).2, holder, join (call.step now id s).1 rest⟩

section Runs

variable {tolerated : Stray → Prop} {id : ComponentId} {a b c : Scene} {events later : List Event}

theorem Run.steps (h : Run tolerated id a events b) : Steps tolerated id a b := by
  induction h with
  | refl => exact .refl
  | enter t _ ih => exact ih.tail (.enter t)
  | inside now g _ ih => exact ih.tail (.inside now g)
  | outside now call hstray _ ih => exact ih.tail (.outside now call hstray)

theorem Run.trans (h : Run tolerated id a events b) (h' : Run tolerated id b later c) :
    Run tolerated id a (events ++ later) c := by
  induction h' with
  | refl => rwa [List.append_nil]
  | enter t _ ih => exact ih.enter t
  | inside now g _ ih =>
    rw [← List.append_assoc]
    exact ih.inside now g
  | outside now call hstray _ ih => exact ih.outside now call hstray

end Runs

end Scene

/-! ## An operation by itself -/

section Alone

open Scene

variable {tolerated : Stray → Prop} {id : ComponentId} {s s' : Stores} {rest : Multiset Call}
  {scene : Scene} {events : List Event}

theorem run_leave : Run tolerated id ⟨s, some .leave, rest⟩ [] ⟨s, none, rest⟩ :=
  .inside ⟨0⟩ .leave .refl

theorem run_arm (now : Instant) (requested : Option Lease) :
    Run tolerated id ⟨s, some (.arm requested), rest⟩
      [.armed (s.leases.arm now id requested).1]
      ⟨{ s with leases := (s.leases.arm now id requested).2 }, none, rest⟩ :=
  .inside ⟨0⟩ .leave (.inside now (.arm requested) .refl)

/-- A task takes the lock, does its first step, and goes on. -/
theorem run_enter (now : Instant) {t : Task} {g : Guarded} {event? : Option Event}
    (h : (Guarded.first t).step now id s = (some g, s'))
    (hevent : (Guarded.first t).event? now id s = event?)
    (hrest : Run tolerated id ⟨s', some g, rest⟩ events scene) :
    Run tolerated id ⟨s, none, .wait t ::ₘ rest⟩ (event?.toList ++ events) scene := by
  have hfirst : Run tolerated id ⟨s, none, .wait t ::ₘ rest⟩ _
      ⟨((Guarded.first t).step now id s).2, ((Guarded.first t).step now id s).1, rest⟩ :=
    .inside now (.first t) (.enter t .refl)
  rw [h, hevent] at hfirst
  exact hfirst.trans hrest

/-- A call without the lock does a step that is not stray, and the others go on. -/
theorem run_outside (now : Instant) {call : Call} {next : Option Call} {holder : Option Guarded}
    (hstray : call.stray? id s = none) (h : call.step now id s = (next, s'))
    (hrest : Run tolerated id ⟨s', holder, join next rest⟩ events scene) :
    Run tolerated id ⟨s, holder, call ::ₘ rest⟩ events scene := by
  have hstep : Run tolerated id ⟨s, holder, call ::ₘ rest⟩ []
      ⟨(call.step now id s).2, holder, join (call.step now id s).1 rest⟩ := by
    refine .outside now call (fun k hk => ?_) .refl
    rw [hstray] at hk
    cases hk
  rw [h] at hstep
  exact hstep.trans hrest

theorem steps_leave : Steps tolerated id ⟨s, some .leave, rest⟩ ⟨s, none, rest⟩ :=
  run_leave.steps

theorem steps_arm (now : Instant) (requested : Option Lease) :
    Steps tolerated id ⟨s, some (.arm requested), rest⟩
      ⟨{ s with leases := (s.leases.arm now id requested).2 }, none, rest⟩ :=
  (run_arm now requested).steps

theorem steps_cancel :
    Steps tolerated id ⟨s, some .cancel, rest⟩
      ⟨{ s with leases := (s.leases.cancel id).2 }, none, rest⟩ :=
  .head (.inside ⟨0⟩ .cancel) steps_leave

theorem steps_remove :
    Steps tolerated id ⟨s, some .remove, rest⟩
      ⟨{ s with registry := (s.registry.remove id).2 }, none, rest⟩ :=
  .head (.inside ⟨0⟩ .remove) steps_leave

/-- A task takes the lock and does its first step. -/
theorem steps_enter (now : Instant) {t : Task} {g : Guarded}
    (h : (Guarded.first t).step now id s = (some g, s'))
    (hrest : Steps tolerated id ⟨s', some g, rest⟩ scene) :
    Steps tolerated id ⟨s, none, .wait t ::ₘ rest⟩ scene := by
  have hstep : Step tolerated id ⟨s, some (.first t), rest⟩
      ⟨((Guarded.first t).step now id s).2, ((Guarded.first t).step now id s).1, rest⟩ :=
    .inside now (.first t)
  rw [h] at hstep
  exact .head (.enter t) (.head hstep hrest)

/-- A call without the lock does a step that is not stray. -/
theorem steps_outside (now : Instant) {call : Call} {next : Option Call}
    {holder : Option Guarded} (hstray : call.stray? id s = none)
    (h : call.step now id s = (next, s'))
    (hrest : Steps tolerated id ⟨s', holder, join next rest⟩ scene) :
    Steps tolerated id ⟨s, holder, call ::ₘ rest⟩ scene := by
  have hstep : Step tolerated id ⟨s, holder, call ::ₘ rest⟩
      ⟨(call.step now id s).2, holder, join (call.step now id s).1 rest⟩ := by
    refine .outside now call fun k hk => ?_
    rw [hstray] at hk
    cases hk
  rw [h] at hstep
  exact .head hstep hrest

end Alone

end Interleaving

namespace Mediator

open Interleaving Scene

variable {J : Type}

/-- What the calls share of the service. -/
def stores (m : Mediator J) : Stores := ⟨m.registry, m.leases⟩

/-- The call that an operation about a component is, and the component. -/
def Operation.call? : Operation → Option (ComponentId × Call)
  | .register c lease => some (c.id, .wait (.register c lease))
  | .update id delta mode lease => some (id, .wait (.update delta mode lease))
  | .renew id lease => some (id, .wait (.renew lease))
  | .unregister id => some (id, .wait .unregister)
  | .evict id => some (id, .wait .evict)
  | .handleExpiry x => some (x.component, .expiry x.generation)
  | .handleCompletion c =>
    match c.key.purpose with
    | .leaseEnd generation =>
      some (c.key.component, .completion generation (.ofDelivery c.key.component c.result))
    | .notification _ => none
  | _ => none

variable [Journal J] {tolerated : Stray → Prop} {rest : Multiset Call}

/-- A registration by itself leaves the description and the lease that it answers with behind, or
nothing if it fails. -/
theorem register_run (now : Instant) (m : Mediator J) (c : Component) (lease : Option Lease) :
    (∃ e, (m.register now c lease).1 = .error e ∧
      Run tolerated c.id ⟨m.stores, none, .wait (.register c lease) ::ₘ rest⟩ []
        ⟨(m.register now c lease).2.stores, none, rest⟩) ∨
    ∃ entry, (m.register now c lease).1 = .ok entry.lease ∧
      Run tolerated c.id ⟨m.stores, none, .wait (.register c lease) ::ₘ rest⟩
        [.stored c, .armed entry] ⟨(m.register now c lease).2.stores, none, rest⟩ := by
  unfold register
  rcases hadd : m.registry.add c with ⟨e | previous, registry⟩
  · have hfirst : (Guarded.first (.register c lease)).step now c.id m.stores =
        (some .leave, ⟨registry, m.leases⟩) := by
      simp only [Guarded.step, stores, hadd]
    have hevent : (Guarded.first (.register c lease)).event? now c.id m.stores = none := by
      simp only [Guarded.event?, stores, hadd]
      rfl
    exact .inl ⟨_, rfl, run_enter now hfirst hevent run_leave⟩
  · have hfirst : (Guarded.first (.register c lease)).step now c.id m.stores =
        (some (.arm lease), ⟨registry, m.leases⟩) := by
      simp only [Guarded.step, stores, hadd]
    have hevent : (Guarded.first (.register c lease)).event? now c.id m.stores =
        some (.stored c) := by
      simp only [Guarded.event?, stores, hadd]
      rfl
    exact .inr ⟨_, rfl, run_enter now hfirst hevent (run_arm now lease)⟩

theorem register_steps (now : Instant) (m : Mediator J) (c : Component) (lease : Option Lease) :
    Steps tolerated c.id ⟨m.stores, none, .wait (.register c lease) ::ₘ rest⟩
      ⟨(m.register now c lease).2.stores, none, rest⟩ := by
  rcases m.register_run now c lease with ⟨e, -, h⟩ | ⟨entry, -, h⟩
  · exact h.steps
  · exact h.steps

/-- So does an update, which leaves no lease behind if it has not asked for one. -/
theorem update_run (now : Instant) (m : Mediator J) (id : ComponentId) (delta : Attributes)
    (mode : UpdateMode) (lease : Option Lease) :
    (∃ e, (m.update now id delta mode lease).1 = .error e ∧
      Run tolerated id ⟨m.stores, none, .wait (.update delta mode lease) ::ₘ rest⟩ []
        ⟨(m.update now id delta mode lease).2.stores, none, rest⟩) ∨
    ∃ (c : Component) (granted : Option LeaseEntry),
      (m.update now id delta mode lease).1 = .ok (granted.map LeaseEntry.lease) ∧
      granted.isSome = lease.isSome ∧
      Run tolerated id ⟨m.stores, none, .wait (.update delta mode lease) ::ₘ rest⟩
        (.stored c :: granted.toList.map .armed)
        ⟨(m.update now id delta mode lease).2.stores, none, rest⟩ := by
  unfold update
  rcases hupdate : m.registry.update id delta mode with ⟨e | updated, registry⟩
  · have hfirst : (Guarded.first (.update delta mode lease)).step now id m.stores =
        (some .leave, ⟨registry, m.leases⟩) := by
      simp only [Guarded.step, stores, hupdate]
    have hevent : (Guarded.first (.update delta mode lease)).event? now id m.stores = none := by
      simp only [Guarded.event?, stores, hupdate]
      rfl
    exact .inl ⟨_, rfl, run_enter now hfirst hevent run_leave⟩
  · have hevent : (Guarded.first (.update delta mode lease)).event? now id m.stores =
        some (.stored updated) := by
      simp only [Guarded.event?, stores, hupdate]
      rfl
    cases lease with
    | none =>
      have hfirst : (Guarded.first (.update delta mode none)).step now id m.stores =
          (some .leave, ⟨registry, m.leases⟩) := by
        simp only [Guarded.step, stores, hupdate]
      exact .inr ⟨updated, none, rfl, rfl, run_enter now hfirst hevent run_leave⟩
    | some l =>
      have hfirst : (Guarded.first (.update delta mode (some l))).step now id m.stores =
          (some (.arm (some l)), ⟨registry, m.leases⟩) := by
        simp only [Guarded.step, stores, hupdate]
      exact .inr ⟨updated, some (m.leases.arm now id (some l)).1, rfl, rfl,
        run_enter now hfirst hevent (run_arm now (some l))⟩

theorem update_steps (now : Instant) (m : Mediator J) (id : ComponentId) (delta : Attributes)
    (mode : UpdateMode) (lease : Option Lease) :
    Steps tolerated id ⟨m.stores, none, .wait (.update delta mode lease) ::ₘ rest⟩
      ⟨(m.update now id delta mode lease).2.stores, none, rest⟩ := by
  rcases m.update_run now id delta mode lease with ⟨e, -, h⟩ | ⟨c, granted, -, -, h⟩
  · exact h.steps
  · exact h.steps

omit [Journal J] in
/-- So does a renewal, which leaves no description behind. -/
theorem renew_run (now : Instant) (m : Mediator J) (id : ComponentId) (lease : Lease) :
    (∃ e, (m.renew now id lease).1 = .error e ∧
      Run tolerated id ⟨m.stores, none, .wait (.renew lease) ::ₘ rest⟩ []
        ⟨(m.renew now id lease).2.stores, none, rest⟩) ∨
    ∃ entry, (m.renew now id lease).1 = .ok entry.lease ∧
      Run tolerated id ⟨m.stores, none, .wait (.renew lease) ::ₘ rest⟩ [.armed entry]
        ⟨(m.renew now id lease).2.stores, none, rest⟩ := by
  unfold renew
  rcases hcontains : m.registry.contains id with ⟨e | registered, registry⟩
  · have hfirst : (Guarded.first (.renew lease)).step now id m.stores =
        (some .leave, ⟨registry, m.leases⟩) := by
      simp only [Guarded.step, stores, hcontains]
    exact .inl ⟨_, rfl, run_enter now hfirst rfl run_leave⟩
  · cases registered with
    | false =>
      have hfirst : (Guarded.first (.renew lease)).step now id m.stores =
          (some .leave, ⟨registry, m.leases⟩) := by
        simp only [Guarded.step, stores, hcontains]
      exact .inl ⟨_, rfl, run_enter now hfirst rfl run_leave⟩
    | true =>
      have hfirst : (Guarded.first (.renew lease)).step now id m.stores =
          (some (.arm (some lease)), ⟨registry, m.leases⟩) := by
        simp only [Guarded.step, stores, hcontains]
      exact .inr ⟨_, rfl, run_enter now hfirst rfl (run_arm now (some lease))⟩

omit [Journal J] in
theorem renew_steps (now : Instant) (m : Mediator J) (id : ComponentId) (lease : Lease) :
    Steps tolerated id ⟨m.stores, none, .wait (.renew lease) ::ₘ rest⟩
      ⟨(m.renew now id lease).2.stores, none, rest⟩ := by
  rcases m.renew_run now id lease with ⟨e, -, h⟩ | ⟨entry, -, h⟩
  · exact h.steps
  · exact h.steps

theorem depart_stores (m : Mediator J) (c : Component) : (m.depart c).stores = m.stores := by
  unfold stores
  rw [depart_registry, depart_leases]

theorem unregister_steps (m : Mediator J) (id : ComponentId) :
    Steps tolerated id ⟨m.stores, none, .wait .unregister ::ₘ rest⟩
      ⟨(m.unregister id).2.stores, none, rest⟩ := by
  unfold unregister
  rcases hremove : m.registry.remove id with ⟨e | removed, registry⟩
  · have hfirst : (Guarded.first .unregister).step ⟨0⟩ id m.stores =
        (some .leave, ⟨registry, m.leases⟩) := by
      simp only [Guarded.step, stores, hremove]
    exact steps_enter ⟨0⟩ hfirst steps_leave
  · cases removed with
    | none =>
      have hfirst : (Guarded.first .unregister).step ⟨0⟩ id m.stores =
          (some .leave, ⟨registry, m.leases⟩) := by
        simp only [Guarded.step, stores, hremove]
      exact steps_enter ⟨0⟩ hfirst steps_leave
    | some c =>
      have hfirst : (Guarded.first .unregister).step ⟨0⟩ id m.stores =
          (some .cancel, ⟨registry, m.leases⟩) := by
        simp only [Guarded.step, stores, hremove]
      simp only [depart_stores]
      exact steps_enter ⟨0⟩ hfirst steps_cancel

theorem evict_steps (m : Mediator J) (id : ComponentId) :
    Steps tolerated id ⟨m.stores, none, .wait .evict ::ₘ rest⟩
      ⟨(m.evict id).2.stores, none, rest⟩ := by
  unfold evict
  by_cases hlease : (m.leases.get? id).isSome = true
  · have hfirst : (Guarded.first .evict).step ⟨0⟩ id m.stores = (some .leave, m.stores) := by
      simp only [Guarded.step, stores, hlease, ↓reduceIte]
    rw [if_pos hlease]
    exact steps_enter ⟨0⟩ hfirst steps_leave
  · have hfirst : (Guarded.first .evict).step ⟨0⟩ id m.stores = (some .remove, m.stores) := by
      simp only [Guarded.step, stores, hlease, Bool.false_eq_true, ↓reduceIte]
    have hremoved : (m.evict id).2.stores = ⟨(m.registry.remove id).2, m.leases⟩ := by
      unfold evict
      rw [if_neg hlease]
      rcases m.registry.remove id with ⟨e | _ | c, registry⟩
      · rfl
      · rfl
      · exact depart_stores _ c
    unfold evict at hremoved
    rw [hremoved]
    exact steps_enter ⟨0⟩ hfirst steps_remove

theorem conclude_steps (now : Instant) (m : Mediator J) (x : Expiry) (outcome : HandshakeOutcome) :
    Steps tolerated x.component ⟨m.stores, none, .completion x.generation outcome ::ₘ rest⟩
      ⟨(m.conclude now x outcome).stores, none, rest⟩ := by
  unfold conclude
  rcases m.leases.resolve_cases now x outcome with
    ⟨hstale, h⟩ | ⟨hawaiting, ⟨lease, houtcome, h⟩ | ⟨hlost, reason, h⟩⟩
  · have hstep : (Call.completion x.generation outcome).step now x.component m.stores =
        (none, m.stores) := by
      simp only [Call.step, stores, hstale, Bool.false_eq_true, ↓reduceIte]
    rw [h]
    exact steps_outside now rfl hstep .refl
  · have hstep : (Call.completion x.generation outcome).step now x.component m.stores =
        (some (.lateArm lease), m.stores) := by
      simp only [Call.step, stores, hawaiting, ↓reduceIte, houtcome]
    obtain ⟨e, he, -⟩ := LeaseTable.isAwaiting_iff.mp hawaiting
    have hown : (Call.lateArm lease).stray? x.component m.stores = none := by
      simp only [Call.stray?, stores, he, Option.isSome_some, ↓reduceIte]
    rw [h]
    exact steps_outside now rfl hstep (steps_outside now hown rfl .refl)
  · have hstep : (Call.completion x.generation outcome).step now x.component m.stores =
        (some (.wait .evict), ⟨m.registry, m.leases.drop x.component⟩) := by
      cases outcome with
      | renewed lease => exact absurd rfl (hlost lease)
      | ended => simp only [Call.step, stores, hawaiting, ↓reduceIte]
      | failed reason => simp only [Call.step, stores, hawaiting, ↓reduceIte]
    rw [h]
    exact steps_outside now rfl hstep
      (evict_steps { m with leases := m.leases.drop x.component } x.component)

theorem handleExpiry_steps (now : Instant) (m : Mediator J) (x : Expiry) :
    Steps tolerated x.component ⟨m.stores, none, .expiry x.generation ::ₘ rest⟩
      ⟨(m.handleExpiry now x).stores, none, rest⟩ := by
  unfold handleExpiry
  rcases m.leases.beginHandshake_cases x with h | ⟨e, he, hgeneration, -, h⟩
  · have hstep : (Call.expiry x.generation).step now x.component m.stores = (none, m.stores) := by
      simp only [Call.step, stores, h]
    rw [h]
    exact steps_outside now rfl hstep .refl
  · -- The lease is the one that has expired, and its phase changes.
    let asked : Mediator J :=
      { m with leases.entries :=
          m.leases.entries.insert x.component { e with phase := .handshaking } }
    have hstep : (Call.expiry x.generation).step now x.component m.stores =
        (some (.lookUp x.generation), asked.stores) := by
      simp only [Call.step, stores, h]
      rfl
    refine steps_outside now rfl hstep ?_
    rw [h]
    rcases hget : m.registry.get x.component with ⟨e' | _ | c, registry⟩
    · have hlook : (Call.lookUp x.generation).step now x.component asked.stores =
          (some (.completion x.generation (.failed ("registry lookup failed: " ++ e'.message))),
            ⟨registry, asked.leases⟩) := by
        simp only [Call.step, stores, asked, hget]
      exact steps_outside now rfl hlook
        (conclude_steps now { asked with registry } x _)
    · have hlook : (Call.lookUp x.generation).step now x.component asked.stores =
          (some (.lateCancel x.generation), ⟨registry, asked.leases⟩) := by
        simp only [Call.step, stores, asked, hget]
      have hown : (Call.lateCancel x.generation).stray? x.component ⟨registry, asked.leases⟩ =
          none := by
        have hentry : asked.leases.get? x.component = some { e with phase := .handshaking } :=
          SortedMap.get?_insert_self _ _ _
        simp only [Call.stray?, hentry, hgeneration, ↓reduceIte]
      exact steps_outside now rfl hlook (steps_outside now hown rfl .refl)
    · have hlook : (Call.lookUp x.generation).step now x.component asked.stores =
          (none, ⟨registry, asked.leases⟩) := by
        simp only [Call.step, stores, asked, hget]
      exact steps_outside now rfl hlook .refl

/-- A call that nothing comes between does what its operation does as a whole, and no step of it is
stray. -/
theorem perform_steps (now : Instant) (m : Mediator J) {o : Operation} {id : ComponentId}
    {call : Call} (h : o.call? = some (id, call)) :
    Steps tolerated id ⟨m.stores, none, call ::ₘ rest⟩ ⟨(m.perform now o).stores, none, rest⟩ := by
  cases o with
  | register c lease =>
    cases h
    exact m.register_steps now c lease
  | update id delta mode lease =>
    cases h
    exact m.update_steps now id delta mode lease
  | renew id lease =>
    cases h
    exact m.renew_steps now id lease
  | unregister id =>
    cases h
    exact m.unregister_steps id
  | evict id =>
    cases h
    exact m.evict_steps id
  | handleExpiry x =>
    cases h
    exact m.handleExpiry_steps now x
  | handleCompletion c =>
    change Steps tolerated id _ ⟨(m.handleCompletion now c).stores, none, rest⟩
    unfold handleCompletion
    cases hpurpose : c.key.purpose with
    | leaseEnd generation =>
      simp only [Operation.call?, hpurpose] at h
      cases h
      exact m.conclude_steps now ⟨c.key.component, generation⟩ _
    | notification subscription =>
      simp only [Operation.call?, hpurpose] at h
      cases h
  | _ => cases h

end Mediator

end Rendezvous
