import Rendezvous.Proofs.Directory.Registry
import Rendezvous.Proofs.Lease.Table
import Rendezvous.Service.World
/-!
# Histories of the service

An `Operation` is anything that can happen to the service as a whole: a request that it is given, an
expiry or a completion that it is told of, or what its surroundings do by themselves. A history is a
list of operations, each at an instant of its own. Nothing ties expiries and completions to timers
and requests, so a history may bring them late, twice, in any order, for any generation, or without
any cause.

The lemmas here say what an operation makes of the directory and the leases. Whether the registry
fails is left open by them.
-/

namespace Rendezvous

namespace Mediator

/-- What can happen to the service. -/
inductive Operation
  | register (c : Component) (lease : Option Lease)
  | update (id : ComponentId) (delta : Attributes) (mode : UpdateMode) (lease : Option Lease)
  | renew (id : ComponentId) (lease : Lease)
  | unregister (id : ComponentId)
  | evict (id : ComponentId)
  | subscribe (r : SubscribeRequest)
  | unsubscribe (id : SubscriptionId)
  | query (q : Option Query)
  | queryPage (q : Option Query) (pageSize : Option Nat)
  | queryNext (cursor : String)
  | handleExpiry (x : Expiry)
  | handleCompletion (c : Completion)
  /-- The components in the journal are pinged, and those that answer are registered again. -/
  | restore (answers : Component → Bool)
  /-- Components that were read from the journal before are registered again. -/
  | reinstate (answers : List (Component × Bool))
  /-- The timers that are due fire. -/
  | fire
  /-- The requests that may be sent are sent. -/
  | launch (network : Network)
  /-- The requests that have come to something are taken note of. -/
  | land
  /-- The oldest completion is taken out. -/
  | receive

variable {J : Type} [Journal J]

/-- The service after an operation. -/
def perform (now : Instant) (m : Mediator J) : Operation → Mediator J
  | .register c lease => (m.register now c lease).2
  | .update id delta mode lease => (m.update now id delta mode lease).2
  | .renew id lease => (m.renew now id lease).2
  | .unregister id => (m.unregister id).2
  | .evict id => (m.evict id).2
  | .subscribe r => (m.subscribe r).2
  | .unsubscribe id => (m.unsubscribe id).2
  | .query q => (m.query q).2
  | .queryPage q pageSize => (m.queryPage q pageSize).2
  | .queryNext cursor => (m.queryNext cursor).2
  | .handleExpiry x => m.handleExpiry now x
  | .handleCompletion c => m.handleCompletion now c
  | .restore answers => (m.restore now answers).2
  | .reinstate answers => (m.reinstate now answers).2
  | .fire => { m with leases := (m.leases.fire now).2 }
  | .launch network => { m with dispatcher := (m.dispatcher.launch network now).2 }
  | .land => { m with dispatcher := m.dispatcher.land now }
  | .receive =>
    match m.dispatcher.receive with
    | some (_, dispatcher) => { m with dispatcher }
    | none => m

theorem perform_subscribe (now : Instant) (m : Mediator J) (r : SubscribeRequest) :
    m.perform now (.subscribe r) = (m.subscribe r).2 := rfl

theorem perform_unsubscribe (now : Instant) (m : Mediator J) (id : SubscriptionId) :
    m.perform now (.unsubscribe id) = (m.unsubscribe id).2 := rfl

/-- The service after a history. -/
def after (m : Mediator J) (history : List (Instant × Operation)) : Mediator J :=
  history.foldl (fun m o => m.perform o.1 o.2) m

/-- The service over a registry in which the given calls fail. -/
def withFaults (m : Mediator J) (faults : FaultPlan) : Mediator J :=
  { m with registry := { m.registry with faults } }

/-! ## What notifying and noting leaves alone -/

omit [Journal J] in
@[simp] theorem notify_registry (m : Mediator J) (callback : Callback) (c : Component) :
    (m.notify callback c).registry = m.registry := rfl

omit [Journal J] in
@[simp] theorem notify_leases (m : Mediator J) (callback : Callback) (c : Component) :
    (m.notify callback c).leases = m.leases := rfl

@[simp] theorem record_registry (m : Mediator J) (c : Component) :
    (m.record c).registry = m.registry := rfl

@[simp] theorem record_leases (m : Mediator J) (c : Component) :
    (m.record c).leases = m.leases := rfl

@[simp] theorem forget_registry (m : Mediator J) (id : ComponentId) :
    (m.forget id).registry = m.registry := rfl

@[simp] theorem forget_leases (m : Mediator J) (id : ComponentId) :
    (m.forget id).leases = m.leases := rfl

@[simp] theorem depart_registry (m : Mediator J) (c : Component) :
    (m.depart c).registry = m.registry := by
  unfold depart
  simp only [forget_registry]
  split <;> rfl

@[simp] theorem depart_leases (m : Mediator J) (c : Component) :
    (m.depart c).leases = m.leases := by
  unfold depart
  simp only [forget_leases]
  split <;> rfl

theorem depart_journal (m : Mediator J) (c : Component) :
    (m.depart c).journal = (Journal.forget m.journal c.id).2 := by
  unfold depart
  simp only
  split <;> rfl

/-! ## What the operations do to the directory and the leases -/

theorem register_cases (now : Instant) (m : Mediator J) (c : Component) (lease : Option Lease) :
    (∃ e, m.register now c lease =
      (.error e, { m with registry := m.registry.after m.directory })) ∨
    ∃ previous d, m.directory.insert c = .ok (previous, d) ∧
      m.register now c lease = (.ok (m.leases.arm now c.id lease).1.lease,
        ({ m with registry := m.registry.after d
                  leases := (m.leases.arm now c.id lease).2 }.record c).notify
          .newComponent c) := by
  unfold register
  rcases m.registry.add_cases c with ⟨e, h⟩ | ⟨previous, d, hop, h⟩
  · exact .inl ⟨_, by rw [h]; rfl⟩
  · exact .inr ⟨previous, d, hop, by rw [h]⟩

theorem update_cases (now : Instant) (m : Mediator J) (id : ComponentId) (delta : Attributes)
    (mode : UpdateMode) (lease : Option Lease) :
    (∃ e, m.update now id delta mode lease =
      (.error e, { m with registry := m.registry.after m.directory })) ∨
    ∃ updated d, m.directory.update id delta mode = .ok (updated, d) ∧
      m.update now id delta mode lease =
        (.ok (lease.map fun l => (m.leases.arm now id (some l)).1.lease),
          ({ m with registry := m.registry.after d
                    leases := match lease with
                      | none => m.leases
                      | some l => (m.leases.arm now id (some l)).2 }.record updated).notify
            .updatedComponent updated) := by
  unfold update
  rcases m.registry.update_cases id delta mode with ⟨e, h⟩ | ⟨updated, d, hop, h⟩
  · exact .inl ⟨_, by rw [h]; rfl⟩
  · refine .inr ⟨updated, d, hop, ?_⟩
    rw [h]
    cases lease <;> rfl

omit [Journal J] in
theorem renew_cases (now : Instant) (m : Mediator J) (id : ComponentId) (lease : Lease) :
    (∃ e, m.renew now id lease = (.error e, { m with registry := m.registry.after m.directory })) ∨
    (m.directory.contains id = true ∧
      m.renew now id lease = (.ok (m.leases.arm now id (some lease)).1.lease,
        { m with registry := m.registry.after m.directory
                 leases := (m.leases.arm now id (some lease)).2 })) := by
  unfold renew
  rcases m.registry.contains_cases id with ⟨e, -, h⟩ | h
  · exact .inl ⟨_, by rw [h]; rfl⟩
  · rw [h]
    cases hcontains : m.registry.directory.contains id with
    | false => exact .inl ⟨_, rfl⟩
    | true => exact .inr ⟨hcontains, rfl⟩

theorem unregister_cases (m : Mediator J) (id : ComponentId) :
    (∃ e, m.unregister id = (.error e, { m with registry := m.registry.after m.directory })) ∨
    ∃ c, m.directory.get? id = some c ∧
      m.unregister id = (.ok (),
        { m with registry := m.registry.after (m.directory.remove id).2
                 leases := (m.leases.cancel id).2 }.depart c) := by
  unfold unregister
  rcases m.registry.remove_cases id with ⟨e, -, h⟩ | h
  · exact .inl ⟨_, by rw [h]; rfl⟩
  · rw [h]
    cases hget : m.registry.directory.get? id with
    | none =>
      have hsame : (m.registry.directory.remove id).2 = m.directory :=
        Directory.remove_of_absent hget
      exact .inl ⟨_, by rw [hsame]⟩
    | some c => exact .inr ⟨c, hget, rfl⟩

/-- An eviction does nothing to a component with a lease. -/
theorem evict_of_leased {m : Mediator J} {id : ComponentId} (h : (m.leases.get? id).isSome = true) :
    m.evict id = (.ok (), m) := by
  unfold evict
  rw [if_pos h]

theorem evict_cases {m : Mediator J} {id : ComponentId} (h : m.leases.get? id = none) :
    (∃ e, m.registry.Fails .remove ∧
      m.evict id = (.error e, { m with registry := m.registry.after m.directory })) ∨
    (m.directory.get? id = none ∧
      m.evict id = (.ok (), { m with registry := m.registry.after m.directory })) ∨
    ∃ c, m.directory.get? id = some c ∧
      m.evict id = (.ok (),
        { m with registry := m.registry.after (m.directory.remove id).2 }.depart c) := by
  unfold evict
  rw [if_neg (by simp [h])]
  rcases m.registry.remove_cases id with ⟨e, hfail, h⟩ | h
  · exact .inl ⟨_, hfail, by rw [h]; rfl⟩
  · rw [h]
    cases hget : m.registry.directory.get? id with
    | none =>
      have hsame : (m.registry.directory.remove id).2 = m.directory :=
        Directory.remove_of_absent hget
      exact .inr (.inl ⟨hget, by rw [hsame]⟩)
    | some c => exact .inr (.inr ⟨c, hget, rfl⟩)

omit [Journal J] in
theorem query_cases (m : Mediator J) (q : Option Query) :
    (m.query q).2 = m ∨ (m.query q).2 = { m with registry := m.registry.after m.directory } := by
  unfold query
  cases q with
  | none => exact .inl rfl
  | some q =>
    simp only
    split
    · exact .inl rfl
    · rcases m.registry.search_cases q with ⟨e, -, h⟩ | h
      · exact .inr (by rw [h]; rfl)
      · exact .inr (by rw [h]; rfl)

omit [Journal J] in
theorem queryPage_cases (m : Mediator J) (q : Option Query) (pageSize : Option Nat) :
    (m.queryPage q pageSize).2 = (m.query q).2 ∨
    ∃ cursors, (m.queryPage q pageSize).2 = { (m.query q).2 with cursors } := by
  unfold queryPage
  split
  · next h => exact .inl (by rw [h])
  · next h => exact .inr ⟨_, by rw [h]⟩

omit [Journal J] in
theorem queryNext_cases (m : Mediator J) (cursor : String) :
    ∃ cursors, (m.queryNext cursor).2 = { m with cursors } := by
  unfold queryNext
  split
  · exact ⟨m.cursors, rfl⟩
  · exact ⟨_, rfl⟩

omit [Journal J] in
/-- A subscription changes neither the directory nor the leases nor the journal. -/
theorem subscribe_frame (m : Mediator J) (r : SubscribeRequest) :
    (m.subscribe r).2.registry = m.registry ∧ (m.subscribe r).2.leases = m.leases ∧
      (m.subscribe r).2.journal = m.journal := by
  unfold subscribe
  repeat' split
  all_goals exact ⟨rfl, rfl, rfl⟩

omit [Journal J] in
theorem unsubscribe_frame (m : Mediator J) (id : SubscriptionId) :
    (m.unsubscribe id).2.registry = m.registry ∧ (m.unsubscribe id).2.leases = m.leases ∧
      (m.unsubscribe id).2.journal = m.journal := by
  unfold unsubscribe
  split
  · exact ⟨rfl, rfl, rfl⟩
  · simp only
    split <;> exact ⟨rfl, rfl, rfl⟩

/-- What the journal gives is registered again, unless it gives nothing. -/
theorem restore_cases (now : Instant) (answers : Component → Bool) (m : Mediator J) :
    (m.restore now answers).2 = m ∨
    ∃ cs : List Component, m.journaled = .ok cs ∧
      (m.restore now answers).2 = (m.reinstate now (cs.map fun c => (c, answers c))).2 := by
  unfold restore
  split
  · exact .inl rfl
  · next h => exact .inr ⟨_, h, rfl⟩

end Mediator

end Rendezvous
