import Mathlib.Data.List.Induction
import Rendezvous.Proofs.Service.Effect
import Rendezvous.Proofs.Service.Eviction
import Rendezvous.Proofs.Service.Quiet
/-!
# A registry that fails

Any call of a registry may fail, and then the operation goes no further. Nearly always it fails
before anything has been changed, or changes the lease of the component in the same way as the
registration: after the operation every component has what it had, or both a registration and a
lease, or neither (`Mediator.Aligns`).

There is one exception. The lease of a component that is to be evicted is dropped first, and if the
removal fails then, the component stays behind without a lease (`Mediator.Strands`). The end of a
lease is all that evictions come from, so nothing that the service does by itself removes such a
component ever again (`Mediator.covered_iff`).
-/

namespace Rendezvous

namespace Mediator

variable {J : Type}

/-- Whether a component is registered and has no lease that could end. -/
def Stranded (m : Mediator J) (id : ComponentId) : Prop :=
  m.directory.contains id = true ∧ m.leases.get? id = none

/-- Whether an operation drops the lease of a component and the registry keeps the component. -/
def Strands (m : Mediator J) : Operation → Prop
  | .handleCompletion c => ∃ generation, c.key.purpose = .leaseEnd generation ∧
      m.leases.isAwaiting ⟨c.key.component, generation⟩ = true ∧
      (∀ lease, HandshakeOutcome.ofDelivery c.key.component c.result ≠ .renewed lease) ∧
      m.registry.Fails .remove
  -- A component that cannot be looked up is evicted without being asked.
  | .handleExpiry x => (m.leases.beginHandshake x).1 = true ∧ m.registry.Fails .get ∧
      (m.registry.after m.directory).Fails .remove
  | _ => False

/-- A component is stranded only by a removal that fails. -/
theorem Strands.exists_fault {m : Mediator J} {o : Operation} (strands : m.Strands o) :
    ∃ n reason, m.registry.faults n .remove = some reason := by
  cases o with
  | handleExpiry x =>
    obtain ⟨-, -, reason, fails⟩ := strands
    exact ⟨_, reason, fails⟩
  | handleCompletion c =>
    obtain ⟨-, -, -, -, reason, fails⟩ := strands
    exact ⟨_, reason, fails⟩
  | _ => cases strands

/-- Whether every component has what it had, or both a registration and a lease, or neither. -/
def Aligns (m m' : Mediator J) : Prop :=
  m'.registry.faults = m.registry.faults ∧
    ∀ id, (m'.directory.contains id = m.directory.contains id ∧
        (m'.leases.get? id).isSome = (m.leases.get? id).isSome) ∨
      m'.directory.contains id = (m'.leases.get? id).isSome

/-- Whether only registered components have leases. -/
def Backed (m : Mediator J) : Prop :=
  ∀ id, (m.leases.get? id).isSome = true → m.directory.contains id = true

theorem Aligns.trans {m m' m'' : Mediator J} (h : m.Aligns m') (h' : m'.Aligns m'') :
    m.Aligns m'' := by
  refine ⟨h'.1.trans h.1, fun id => ?_⟩
  rcases h'.2 id with ⟨registered', leased'⟩ | aligned'
  · rcases h.2 id with ⟨registered, leased⟩ | aligned
    · exact .inl ⟨registered'.trans registered, leased'.trans leased⟩
    · exact .inr (registered'.trans (aligned.trans leased'.symm))
  · exact .inr aligned'

theorem aligns_of_same {m m' : Mediator J} (hfaults : m'.registry.faults = m.registry.faults)
    (hdirectory : m'.directory = m.directory)
    (hleases : ∀ id, (m'.leases.get? id).isSome = (m.leases.get? id).isSome) : m.Aligns m' := by
  refine ⟨hfaults, fun id => ?_⟩
  rw [hdirectory]
  exact .inl ⟨rfl, hleases id⟩

theorem Aligns.backed {m m' : Mediator J} (aligns : m.Aligns m') (backed : m.Backed) :
    m'.Backed := by
  intro id leased'
  rcases aligns.2 id with ⟨registered, leased⟩ | aligned
  · rw [registered]
    exact backed id (leased.symm.trans leased')
  · exact aligned.trans leased'

theorem Aligns.stranded {m m' : Mediator J} (aligns : m.Aligns m') {id : ComponentId}
    (stranded : m'.Stranded id) : m.Stranded id := by
  obtain ⟨registered', unleased'⟩ := stranded
  rcases aligns.2 id with ⟨registered, leased⟩ | aligned
  · rw [unleased'] at leased
    exact ⟨registered.symm.trans registered', by simpa using leased.symm⟩
  · rw [unleased', registered'] at aligned
    cases aligned

/-- A lease can be started anew for a component that is registered. -/
theorem aligns_arm {m : Mediator J} (now : Instant) {id : ComponentId}
    (registered : m.directory.contains id = true) (requested : Option Lease) :
    m.Aligns { m with leases := (m.leases.arm now id requested).2 } := by
  refine ⟨rfl, fun id' => ?_⟩
  by_cases hid : id' = id
  · refine .inr (Eq.trans (?_ : m.directory.contains id' = true) ?_)
    · rw [hid]
      exact registered
    · rw [LeaseTable.get?_arm, if_pos hid]
      rfl
  · refine .inl ⟨rfl, ?_⟩
    rw [LeaseTable.get?_arm, if_neg hid]

/-- A component comes together with its lease. -/
theorem aligns_add {m : Mediator J} (now : Instant) {c : Component} {previous : Option Component}
    {d : Directory} (h : m.directory.insert c = .ok (previous, d)) (lease : Option Lease) :
    m.Aligns { m with registry := m.registry.after d
                      leases := (m.leases.arm now c.id lease).2 } := by
  refine ⟨rfl, fun id => ?_⟩
  show (d.contains id = m.directory.contains id ∧
    ((m.leases.arm now c.id lease).2.get? id).isSome = (m.leases.get? id).isSome) ∨
      d.contains id = ((m.leases.arm now c.id lease).2.get? id).isSome
  rw [Directory.contains_eq_isSome, Directory.get?_insert h, LeaseTable.get?_arm]
  split
  · exact .inr rfl
  · exact .inl ⟨rfl, rfl⟩

/-- A component goes that has no lease any more. -/
theorem aligns_remove {m m' : Mediator J} (id : ComponentId)
    (hfaults : m'.registry.faults = m.registry.faults)
    (hdirectory : m'.directory = (m.directory.remove id).2)
    (hleases : ∀ id', (m'.leases.get? id').isSome =
      if id' = id then false else (m.leases.get? id').isSome) : m.Aligns m' := by
  refine ⟨hfaults, fun id' => ?_⟩
  rw [hdirectory, hleases, Directory.contains_eq_isSome, Directory.get?_remove]
  split
  · exact .inr rfl
  · exact .inl ⟨rfl, rfl⟩

section Journaled

variable [Journal J]

theorem aligns_evict (m : Mediator J) (id : ComponentId) : m.Aligns (m.evict id).2 := by
  cases hlease : (m.leases.get? id).isSome with
  | true =>
    rw [evict_of_leased hlease]
    exact aligns_of_same rfl rfl fun _ => rfl
  | false =>
    have unleased : m.leases.get? id = none := by simpa using hlease
    rcases evict_cases unleased with ⟨e, -, h⟩ | ⟨-, h⟩ | ⟨c, -, h⟩
    · rw [h]
      exact aligns_of_same rfl rfl fun _ => rfl
    · rw [h]
      exact aligns_of_same rfl rfl fun _ => rfl
    · rw [h]
      refine aligns_remove id (by simp) (by simp [directory]) fun id' => ?_
      simp only [depart_leases]
      split
      · next hid => rw [hid, unleased]; rfl
      · rfl

/-- An eviction for which the registry does not fail, after the lease has been dropped. -/
theorem aligns_evict_drop {m : Mediator J} {id : ComponentId} (removes : ¬ m.registry.Fails .remove) :
    m.Aligns (evict { m with leases := m.leases.drop id } id).2 := by
  have dropped (id' : ComponentId) : ((m.leases.drop id).get? id').isSome =
      if id' = id then false else (m.leases.get? id').isSome := by
    rw [LeaseTable.get?_drop]
    split <;> rfl
  have unleased : (m.leases.drop id).get? id = none := by
    rw [LeaseTable.get?_drop, if_pos rfl]
  rcases evict_cases (m := { m with leases := m.leases.drop id }) unleased with
    ⟨e, hfail, -⟩ | ⟨hget, h⟩ | ⟨c, -, h⟩
  · exact absurd hfail removes
  · rw [h]
    exact aligns_remove id rfl (Directory.remove_of_absent hget).symm dropped
  · rw [h]
    refine aligns_remove id (by simp) (by simp [directory]) fun id' => ?_
    simp only [depart_leases]
    exact dropped id'

theorem aligns_conclude (now : Instant) {m : Mediator J} (x : Expiry) {outcome : HandshakeOutcome}
    (held : ¬ (m.leases.isAwaiting x = true ∧ (∀ lease, outcome ≠ .renewed lease) ∧
      m.registry.Fails .remove)) : m.Aligns (m.conclude now x outcome) := by
  cases hawaiting : m.leases.isAwaiting x with
  | false =>
    rw [conclude_of_stale now hawaiting]
    exact aligns_of_same rfl rfl fun _ => rfl
  | true =>
    by_cases hended : ∀ lease, outcome ≠ .renewed lease
    · rw [conclude_of_ended now hawaiting hended]
      exact aligns_evict_drop fun fails => held ⟨hawaiting, hended, fails⟩
    · obtain ⟨lease, hlease⟩ := not_forall.mp hended
      obtain rfl := not_not.mp hlease
      rw [conclude_of_renewed now hawaiting]
      obtain ⟨entry, hentry, -⟩ := LeaseTable.isAwaiting_iff.mp hawaiting
      refine aligns_of_same rfl rfl fun id => ?_
      rw [LeaseTable.get?_arm]
      split
      · next hid => rw [hid, hentry]; rfl
      · rfl

theorem aligns_handleExpiry (now : Instant) {m : Mediator J} {x : Expiry}
    (held : ¬ m.Strands (.handleExpiry x)) : m.Aligns (m.handleExpiry now x) := by
  have begun := m.leases.isSome_get?_beginHandshake x
  unfold handleExpiry
  rcases hbegin : m.leases.beginHandshake x with ⟨begins, leases⟩
  rw [hbegin] at begun
  cases begins with
  | false => exact aligns_of_same rfl rfl fun _ => rfl
  | true =>
    rcases m.registry.get_cases x.component with ⟨e, hfail, hget⟩ | hget
    · rw [hget]
      have asked : m.Aligns { m with registry := m.registry.after m.directory, leases } :=
        aligns_of_same rfl rfl begun
      refine asked.trans (aligns_conclude now x fun h => held ?_)
      exact ⟨by rw [hbegin], hfail, h.2.2⟩
    · rw [hget]
      cases hc : m.registry.directory.get? x.component with
      | some c => exact aligns_of_same rfl rfl begun
      | none =>
        refine aligns_remove x.component rfl (Directory.remove_of_absent hc).symm fun id => ?_
        show ((leases.cancel x.component).2.get? id).isSome = _
        rw [LeaseTable.get?_cancel, ← begun]
        split <;> rfl

theorem aligns_reinstate (now : Instant) (m : Mediator J) (answers : List (Component × Bool)) :
    m.Aligns (m.reinstate now answers).2 := by
  induction answers generalizing m with
  | nil => exact aligns_of_same rfl rfl fun _ => rfl
  | cons answer rest ih =>
    obtain ⟨c, answered⟩ := answer
    cases answered with
    | false => exact ih (m.forget c.id)
    | true =>
      unfold reinstate
      rcases m.registry.add_cases c with ⟨e, h⟩ | ⟨previous, d, hop, h⟩
      · rw [h]
        exact aligns_of_same rfl rfl fun _ => rfl
      · rw [h]
        exact (aligns_add now hop none).trans (ih _)

omit [Journal J] in
theorem aligns_query (m : Mediator J) (q : Option Query) : m.Aligns (m.query q).2 := by
  rcases m.query_cases q with h | h
  · rw [h]
    exact aligns_of_same rfl rfl fun _ => rfl
  · rw [h]
    exact aligns_of_same rfl rfl fun _ => rfl

/-- Whatever the registry does, every component has what it had, or both a registration and a
lease, or neither, unless the operation strands one. -/
theorem aligns_perform {m : Mediator J} (named : m.directory.Named) (now : Instant) {o : Operation}
    (held : ¬ m.Strands o) : m.Aligns (m.perform now o) := by
  have same {m' : Mediator J} (hfaults : m'.registry.faults = m.registry.faults)
      (hdirectory : m'.directory = m.directory) (hleases : m'.leases = m.leases) : m.Aligns m' :=
    aligns_of_same hfaults hdirectory fun id => by rw [hleases]
  cases o with
  | register c lease =>
    change m.Aligns (m.register now c lease).2
    rcases m.register_cases now c lease with ⟨e, h⟩ | ⟨previous, d, hop, h⟩
    · rw [h]
      exact same rfl rfl rfl
    · rw [h]
      exact aligns_add now hop lease
  | update id delta mode lease =>
    change m.Aligns (m.update now id delta mode lease).2
    rcases m.update_cases now id delta mode lease with ⟨e, h⟩ | ⟨updated, d, hop, h⟩
    · rw [h]
      exact same rfl rfl rfl
    · have stays : ∀ id', d.contains id' = m.directory.contains id' :=
        Directory.contains_update named hop
      have changed : m.Aligns { m with registry := m.registry.after d } :=
        ⟨rfl, fun id' => .inl ⟨stays id', rfl⟩⟩
      rw [h]
      cases lease with
      | none => exact changed
      | some l =>
        have registered : d.contains id = true := by
          rw [Directory.contains_eq_isSome, Directory.get?_update named hop, if_pos rfl]
          rfl
        exact changed.trans
          (aligns_arm (m := { m with registry := m.registry.after d }) now registered (some l))
  | renew id lease =>
    change m.Aligns (m.renew now id lease).2
    rcases m.renew_cases now id lease with ⟨e, h⟩ | ⟨registered, h⟩
    · rw [h]
      exact same rfl rfl rfl
    · rw [h]
      exact aligns_arm now registered (some lease)
  | unregister id =>
    change m.Aligns (m.unregister id).2
    rcases m.unregister_cases id with ⟨e, h⟩ | ⟨c, -, h⟩
    · rw [h]
      exact same rfl rfl rfl
    · rw [h]
      refine aligns_remove id (by simp) (by simp [directory]) fun id' => ?_
      simp only [depart_leases, LeaseTable.get?_cancel]
      split <;> rfl
  | evict id => exact m.aligns_evict id
  | handleExpiry x => exact aligns_handleExpiry now held
  | handleCompletion c =>
    change m.Aligns (m.handleCompletion now c)
    unfold handleCompletion
    split
    · next generation hpurpose =>
      exact aligns_conclude now _ fun h => held ⟨generation, hpurpose, h⟩
    · exact same rfl rfl rfl
  | reinstate answers => exact m.aligns_reinstate now answers
  | restore answers =>
    change m.Aligns (m.restore now answers).2
    rcases m.restore_cases now answers with h | ⟨cs, -, h⟩
    · rw [h]
      exact same rfl rfl rfl
    · rw [h]
      exact m.aligns_reinstate now _
  | subscribe r =>
    rw [perform_subscribe]
    obtain ⟨hregistry, hleases, -⟩ := m.subscribe_frame r
    exact same (congrArg Registry.faults hregistry) (congrArg Registry.directory hregistry) hleases
  | unsubscribe id =>
    rw [perform_unsubscribe]
    obtain ⟨hregistry, hleases, -⟩ := m.unsubscribe_frame id
    exact same (congrArg Registry.faults hregistry) (congrArg Registry.directory hregistry) hleases
  | query q => exact m.aligns_query q
  | queryPage q pageSize =>
    change m.Aligns (m.queryPage q pageSize).2
    rcases m.queryPage_cases q pageSize with h | ⟨cursors, h⟩
    · rw [h]
      exact m.aligns_query q
    · rw [h]
      exact m.aligns_query q
  | queryNext cursor =>
    obtain ⟨cursors, h⟩ := m.queryNext_cases cursor
    change m.Aligns (m.queryNext cursor).2
    rw [h]
    exact same rfl rfl rfl
  | fire => exact aligns_of_same rfl rfl fun _ => rfl
  | launch network => exact same rfl rfl rfl
  | land => exact same rfl rfl rfl
  | receive =>
    unfold perform
    cases m.dispatcher.receive with
    | none => exact same rfl rfl rfl
    | some taken => exact same rfl rfl rfl

/-! ## A component that is stranded -/

/-- Whether a component has lost its lease, and nothing else has changed about who is registered
and who has a lease. -/
structure Loses (m : Mediator J) (id : ComponentId) (m' : Mediator J) : Prop where
  faults : m'.registry.faults = m.registry.faults
  leased : (m.leases.get? id).isSome = true
  directory : m'.directory = m.directory
  leases : ∀ id', (m'.leases.get? id').isSome =
    if id' = id then false else (m.leases.get? id').isSome

omit [Journal J] in
theorem Loses.backed {m m' : Mediator J} {id : ComponentId} (loses : m.Loses id m')
    (backed : m.Backed) : m'.Backed := by
  intro id' leased'
  rw [loses.leases] at leased'
  split at leased'
  · cases leased'
  · rw [loses.directory]
    exact backed id' leased'

omit [Journal J] in
theorem Loses.stranded {m m' : Mediator J} {id : ComponentId} (loses : m.Loses id m')
    (backed : m.Backed) : m'.Stranded id := by
  refine ⟨?_, ?_⟩
  · rw [loses.directory]
    exact backed id loses.leased
  · have unleased := loses.leases id
    rw [if_pos rfl] at unleased
    simpa using unleased

theorem loses_conclude (now : Instant) {m : Mediator J} {x : Expiry} {outcome : HandshakeOutcome}
    (awaited : m.leases.isAwaiting x = true) (ended : ∀ lease, outcome ≠ .renewed lease)
    (fails : m.registry.Fails .remove) : m.Loses x.component (m.conclude now x outcome) := by
  obtain ⟨entry, hentry, -⟩ := LeaseTable.isAwaiting_iff.mp awaited
  have unleased : (m.leases.drop x.component).get? x.component = none := by
    rw [LeaseTable.get?_drop, if_pos rfl]
  obtain ⟨e, hremove⟩ := fails.call fun d => .ok (d.remove x.component)
  have hevict : (evict { m with leases := m.leases.drop x.component } x.component).2 =
      { m with registry := m.registry.after m.directory
               leases := m.leases.drop x.component } := by
    unfold evict
    rw [if_neg (by simp [unleased]), Registry.remove, hremove]
    rfl
  rw [conclude_of_ended now awaited ended, hevict]
  refine ⟨rfl, by rw [hentry]; rfl, rfl, fun id' => ?_⟩
  rw [LeaseTable.get?_drop]
  split <;> rfl

theorem loses_handleExpiry (now : Instant) {m : Mediator J} {x : Expiry}
    (strands : m.Strands (.handleExpiry x)) : m.Loses x.component (m.handleExpiry now x) := by
  obtain ⟨begins, unknown, fails⟩ := strands
  have begun := m.leases.isSome_get?_beginHandshake x
  have awaited := LeaseTable.isAwaiting_of_begun begins
  obtain ⟨e, hget⟩ := unknown.call fun d => .ok (d.get? x.component, d)
  have hexpiry : m.handleExpiry now x =
      conclude now { m with registry := m.registry.after m.directory
                            leases := (m.leases.beginHandshake x).2 } x
        (.failed ("registry lookup failed: " ++ e.message)) := by
    unfold handleExpiry
    rcases hbegin : m.leases.beginHandshake x with ⟨begins', leases⟩
    rw [hbegin] at begins
    simp only at begins
    subst begins
    rw [Registry.get, hget]
    rfl
  have ended (lease : Lease) :
      HandshakeOutcome.failed ("registry lookup failed: " ++ e.message) ≠ .renewed lease := by
    simp
  have loses : Loses { m with registry := m.registry.after m.directory
                              leases := (m.leases.beginHandshake x).2 } x.component _ :=
    loses_conclude now awaited ended fails
  rw [hexpiry]
  refine ⟨loses.faults, ?_, loses.directory, fun id' => ?_⟩
  · rw [← begun]
    exact loses.leased
  · rw [loses.leases, begun]

theorem exists_loses {m : Mediator J} (now : Instant) {o : Operation} (strands : m.Strands o) :
    ∃ id, m.Loses id (m.perform now o) := by
  cases o with
  | handleExpiry x => exact ⟨x.component, loses_handleExpiry now strands⟩
  | handleCompletion c =>
    obtain ⟨generation, hpurpose, awaited, ended, fails⟩ := strands
    refine ⟨c.key.component, ?_⟩
    have loses := loses_conclude now awaited ended fails
    change m.Loses c.key.component (m.handleCompletion now c)
    unfold handleCompletion
    rw [hpurpose]
    exact loses
  | _ => cases strands

theorem backed_perform {m : Mediator J} (named : m.directory.Named) (backed : m.Backed)
    (now : Instant) (o : Operation) : (m.perform now o).Backed := by
  by_cases strands : m.Strands o
  · obtain ⟨id, loses⟩ := exists_loses now strands
    exact loses.backed backed
  · exact (aligns_perform named now strands).backed backed

/-- What comes of a handshake is nothing to a component without a lease. -/
theorem Stranded.conclude {m : Mediator J} {id : ComponentId} (stranded : m.Stranded id)
    (now : Instant) (x : Expiry) (outcome : HandshakeOutcome) :
    (m.conclude now x outcome).Stranded id := by
  obtain ⟨registered, unleased⟩ := stranded
  cases hawaiting : m.leases.isAwaiting x with
  | false =>
    rw [conclude_of_stale now hawaiting]
    exact ⟨registered, unleased⟩
  | true =>
    have other : id ≠ x.component := by
      rintro rfl
      obtain ⟨entry, hentry, -⟩ := LeaseTable.isAwaiting_iff.mp hawaiting
      rw [hentry] at unleased
      cases unleased
    by_cases hended : ∀ lease, outcome ≠ .renewed lease
    · rw [conclude_of_ended now hawaiting hended]
      have dropped : Stranded { m with leases := m.leases.drop x.component } id := by
        refine ⟨registered, ?_⟩
        rw [LeaseTable.get?_drop, if_neg other]
        exact unleased
      have unleased' : (m.leases.drop x.component).get? x.component = none := by
        rw [LeaseTable.get?_drop, if_pos rfl]
      rcases evict_cases (m := { m with leases := m.leases.drop x.component }) unleased' with
        ⟨e, -, h⟩ | ⟨-, h⟩ | ⟨c, -, h⟩
      · rw [h]
        exact dropped
      · rw [h]
        exact dropped
      · rw [h]
        refine ⟨?_, by simpa using dropped.2⟩
        simp only [directory, depart_registry, Registry.after_directory]
        rw [Directory.contains_eq_isSome, Directory.get?_remove, if_neg other]
        exact registered
    · obtain ⟨lease, hlease⟩ := not_forall.mp hended
      obtain rfl := not_not.mp hlease
      rw [conclude_of_renewed now hawaiting]
      refine ⟨registered, ?_⟩
      rw [LeaseTable.get?_arm, if_neg other]
      exact unleased

theorem Stranded.handleExpiry {m : Mediator J} {id : ComponentId} (stranded : m.Stranded id)
    (now : Instant) (x : Expiry) : (m.handleExpiry now x).Stranded id := by
  have begun := m.leases.isSome_get?_beginHandshake x id
  unfold Mediator.handleExpiry
  rcases hbegin : m.leases.beginHandshake x with ⟨begins, leases⟩
  rw [hbegin, stranded.2] at begun
  have unleased : leases.get? id = none := by simpa using begun
  cases begins with
  | false => exact stranded
  | true =>
    have asked : Stranded { m with registry := m.registry.after m.directory, leases } id :=
      ⟨stranded.1, unleased⟩
    rcases m.registry.get_cases x.component with ⟨e, -, hget⟩ | hget
    · rw [hget]
      exact asked.conclude now x _
    · rw [hget]
      cases m.registry.directory.get? x.component with
      | some c => exact asked
      | none =>
        refine ⟨asked.1, ?_⟩
        show (leases.cancel x.component).2.get? id = none
        rw [LeaseTable.get?_cancel, unleased]
        split <;> rfl

/-- Nothing that the service does by itself makes an end of a component without a lease. -/
theorem Stranded.perform {m : Mediator J} {id : ComponentId} (stranded : m.Stranded id)
    (now : Instant) {o : Operation} (own : o.isRequest = false) :
    (m.perform now o).Stranded id := by
  cases o with
  | handleExpiry x => exact stranded.handleExpiry now x
  | handleCompletion c =>
    change (m.handleCompletion now c).Stranded id
    unfold Mediator.handleCompletion
    split
    · exact stranded.conclude now _ _
    · exact stranded
  | fire => exact stranded
  | launch network => exact stranded
  | land => exact stranded
  | receive =>
    unfold Mediator.perform
    cases m.dispatcher.receive with
    | none => exact stranded
    | some taken => exact stranded
  | _ => cases own

theorem Stranded.after {m : Mediator J} {id : ComponentId} (stranded : m.Stranded id)
    (history : List (Instant × Operation)) (own : ∀ o ∈ history, o.2.isRequest = false) :
    (m.after history).Stranded id := by
  induction history generalizing m with
  | nil => exact stranded
  | cons o rest ih =>
    exact ih (stranded.perform o.1 (own o List.mem_cons_self)) fun o' h =>
      own o' (List.mem_cons_of_mem o h)

theorem after_append (m : Mediator J) (past later : List (Instant × Operation)) :
    m.after (past ++ later) = (m.after past).after later :=
  List.foldl_append

/-- Whether every registered component has a lease. -/
def Covered (m : Mediator J) : Prop :=
  ∀ id, m.directory.contains id = true → ∃ entry, m.leases.get? id = some entry

omit [Journal J] in
theorem covered_iff_stranded {m : Mediator J} : m.Covered ↔ ∀ id, ¬ m.Stranded id := by
  simp only [Covered, Stranded, not_and, ← Option.isSome_iff_exists, ← Option.not_isSome_iff_eq_none,
    not_not]

/-- After an operation every registered component has a lease exactly if the operation strands
none. -/
theorem Covered.perform_iff {m : Mediator J} (covered : m.Covered) (named : m.directory.Named)
    (backed : m.Backed) (now : Instant) (o : Operation) :
    (m.perform now o).Covered ↔ ¬ m.Strands o := by
  rw [covered_iff_stranded] at *
  constructor
  · intro covered' strands
    obtain ⟨id, loses⟩ := exists_loses now strands
    exact covered' id (loses.stranded backed)
  · intro held id stranded
    exact covered id ((aligns_perform named now held).stranded stranded)

theorem faults_perform {m : Mediator J} (named : m.directory.Named) (now : Instant)
    (o : Operation) : (m.perform now o).registry.faults = m.registry.faults := by
  by_cases strands : m.Strands o
  · obtain ⟨id, loses⟩ := exists_loses now strands
    exact loses.faults
  · exact (aligns_perform named now strands).1

/-- What is known of a service over a registry that fails by the given plan, whatever it has gone
through. -/
structure Planned (m : Mediator J) (faults : FaultPlan) : Prop where
  named : m.directory.Named
  backed : m.Backed
  faults : m.registry.faults = faults

omit [Journal J] in
theorem planned_withFaults (settings : MediatorSettings) (journal : J) (cursorNames : Nat → String)
    (subscriptionNames : Nat → SubscriptionId) (faults : FaultPlan) :
    ((new settings journal cursorNames subscriptionNames).withFaults faults).Planned faults where
  named := Directory.named_empty
  backed _ leased := by cases leased
  faults := rfl

theorem Planned.perform {m : Mediator J} {faults : FaultPlan} (planned : m.Planned faults)
    (now : Instant) (o : Operation) : (m.perform now o).Planned faults where
  named := named_perform planned.named now o
  backed := backed_perform planned.named planned.backed now o
  faults := (faults_perform planned.named now o).trans planned.faults

theorem Planned.after {m : Mediator J} {faults : FaultPlan} (planned : m.Planned faults)
    (history : List (Instant × Operation)) : (m.after history).Planned faults := by
  induction history generalizing m with
  | nil => exact planned
  | cons o rest ih => exact ih (planned.perform o.1 o.2)

/-- As long as no removal fails, whatever else does, every registered component has a lease. -/
theorem covered_of_removing (settings : MediatorSettings) (journal : J)
    (cursorNames : Nat → String) (subscriptionNames : Nat → SubscriptionId) {faults : FaultPlan}
    (removing : ∀ n, faults n .remove = none) (history : List (Instant × Operation)) :
    (((new settings journal cursorNames subscriptionNames).withFaults faults).after
      history).Covered := by
  have planned := planned_withFaults settings journal cursorNames subscriptionNames faults
  induction history using List.reverseRecOn with
  | nil => exact fun id registered => by cases registered
  | append_singleton past o ih =>
    have before := planned.after past
    rw [after_append]
    refine (ih.perform_iff before.named before.backed o.1 o.2).mpr fun strands => ?_
    obtain ⟨n, reason, fails⟩ := strands.exists_fault
    rw [before.faults, removing n] at fails
    cases fails

/-- A registry may fail at any call. After every operation so far each registered component has a
lease, exactly if none of the operations has stranded one. A component that is stranded stays so,
whatever timers, expiries and completions there may be. -/
theorem covered_iff (settings : MediatorSettings) (journal : J) (cursorNames : Nat → String)
    (subscriptionNames : Nat → SubscriptionId) (faults : FaultPlan)
    (history : List (Instant × Operation)) :
    let m := (new settings journal cursorNames subscriptionNames).withFaults faults
    ((∀ past, past <+: history → (m.after past).Covered) ↔
      ∀ past o, past ++ [o] <+: history → ¬ (m.after past).Strands o.2) ∧
    ∀ id, (m.after history).Stranded id → ∀ later : List (Instant × Operation),
      (∀ o ∈ later, o.2.isRequest = false) → ((m.after history).after later).Stranded id := by
  intro m
  have planned : m.Planned faults :=
    planned_withFaults settings journal cursorNames subscriptionNames faults
  refine ⟨⟨fun covered past o hpast => ?_, fun held past hpast => ?_⟩,
    fun id stranded later own => stranded.after later own⟩
  · have before := covered past ((List.prefix_append past [o]).trans hpast)
    have after := covered (past ++ [o]) hpast
    rw [after_append] at after
    have known := planned.after past
    exact (before.perform_iff known.named known.backed o.1 o.2).mp after
  · induction past using List.reverseRecOn with
    | nil => exact fun id registered => by cases registered
    | append_singleton past o ih =>
      have before := ih ((List.prefix_append past [o]).trans hpast)
      have known := planned.after past
      rw [after_append]
      exact (before.perform_iff known.named known.backed o.1 o.2).mpr (held past o hpast)

end Journaled

/-- A lamp that does not answer at the end of its lease, and a registry that cannot remove it. -/
example :
    let faults : FaultPlan := fun _ kind => if kind = .remove then some "disk full" else none
    let m := ((new {} NoJournal.mk (fun _ => "") fun _ => default).withFaults faults).after
      [(⟨0⟩, .register { id := ⟨"lamp"⟩, kind := .widget } none),
        (⟨1⟩, .handleExpiry ⟨⟨"lamp"⟩, 1⟩),
        (⟨2⟩, .handleCompletion ⟨⟨⟨"lamp"⟩, .leaseEnd 1⟩, .error (.timeout ⟨0⟩)⟩)]
    m.directory.contains ⟨"lamp"⟩ = true ∧ m.leases.get? ⟨"lamp"⟩ = none := by
  decide +kernel

end Mediator

end Rendezvous
