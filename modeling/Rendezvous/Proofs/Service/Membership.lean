import Rendezvous.Proofs.Service.Operation
/-!
# Registrations and leases

The directory and the lease table are changed by different operations and at different points of
them. Over a registry that does not fail, every operation as a whole leaves them in step
(`Mediator.Matched.perform`): a component is registered exactly if it has a lease
(`Mediator.registered_iff_leased`). Within a handshake that ends an arming the lease goes first, so
for a moment there is one component too many; the eviction that follows takes it away.
-/

namespace Rendezvous

namespace Mediator

variable {J : Type}

/-- The registered components are those with a lease. -/
structure Matched (m : Mediator J) : Prop where
  faultless : m.registry.Faultless
  named : m.directory.Named
  leased : ∀ id, m.directory.contains id = (m.leases.get? id).isSome

/-- The registered components but one are those with a lease, and this one has none. -/
structure MatchedBut (id : ComponentId) (m : Mediator J) : Prop where
  faultless : m.registry.Faultless
  named : m.directory.Named
  unleased : m.leases.get? id = none
  leased : ∀ id', id' ≠ id → m.directory.contains id' = (m.leases.get? id').isSome

theorem matched_new (settings : MediatorSettings) (journal : J) (cursorNames : Nat → String)
    (subscriptionNames : Nat → SubscriptionId) :
    (new settings journal cursorNames subscriptionNames).Matched where
  faultless _ _ := rfl
  named := Directory.named_empty
  leased _ := rfl

/-- Only the directory, the faults and the leases matter. -/
theorem Matched.congr {m m' : Mediator J} (matched : m.Matched)
    (hfaults : m'.registry.faults = m.registry.faults) (hdirectory : m'.directory = m.directory)
    (hleases : ∀ id, (m'.leases.get? id).isSome = (m.leases.get? id).isSome) : m'.Matched where
  faultless n kind := by
    rw [hfaults]
    exact matched.faultless n kind
  named := by
    rw [hdirectory]
    exact matched.named
  leased id := by
    rw [hdirectory, hleases]
    exact matched.leased id

/-- A call that changes nothing is only counted. -/
theorem Matched.called {m : Mediator J} (matched : m.Matched) :
    Matched { m with registry := m.registry.after m.directory } :=
  matched.congr rfl rfl fun _ => rfl

/-- A lease can be started anew for a component that is registered. -/
theorem Matched.arm {m : Mediator J} (matched : m.Matched) (now : Instant) {id : ComponentId}
    (registered : m.directory.contains id = true) (requested : Option Lease) :
    Matched { m with leases := (m.leases.arm now id requested).2 } where
  faultless := matched.faultless
  named := matched.named
  leased id' := by
    show m.directory.contains id' = ((m.leases.arm now id requested).2.get? id').isSome
    rw [LeaseTable.get?_arm]
    split
    · next h =>
      rw [h]
      exact registered
    · exact matched.leased id'

/-- A component comes together with its lease. -/
theorem Matched.add {m : Mediator J} (matched : m.Matched) (now : Instant) {c : Component}
    {previous : Option Component} {d : Directory} (h : m.directory.insert c = .ok (previous, d))
    (lease : Option Lease) :
    Matched { m with registry := m.registry.after d
                     leases := (m.leases.arm now c.id lease).2 } where
  faultless := matched.faultless
  named := matched.named.insert h
  leased id := by
    show d.contains id = ((m.leases.arm now c.id lease).2.get? id).isSome
    rw [Directory.contains_eq_isSome, Directory.get?_insert h, LeaseTable.get?_arm]
    split
    · rfl
    · exact matched.leased id

section Journaled

variable [Journal J]

theorem Matched.register {m : Mediator J} (matched : m.Matched) (now : Instant) (c : Component)
    (lease : Option Lease) : (m.register now c lease).2.Matched := by
  rcases m.register_cases now c lease with ⟨e, h⟩ | ⟨previous, d, hop, h⟩
  · rw [h]
    exact matched.called
  · rw [h]
    exact (matched.add now hop lease).congr rfl rfl fun _ => rfl

theorem Matched.update {m : Mediator J} (matched : m.Matched) (now : Instant) (id : ComponentId)
    (delta : Attributes) (mode : UpdateMode) (lease : Option Lease) :
    (m.update now id delta mode lease).2.Matched := by
  rcases m.update_cases now id delta mode lease with ⟨e, h⟩ | ⟨updated, d, hop, h⟩
  · rw [h]
    exact matched.called
  · have hcontains : ∀ id', d.contains id' = m.directory.contains id' :=
      Directory.contains_update matched.named hop
    have updated' : Matched { m with registry := m.registry.after d } :=
      { faultless := matched.faultless
        named := matched.named.update hop
        leased := fun id' => (hcontains id').trans (matched.leased id') }
    rw [h]
    cases lease with
    | none => exact updated'.congr rfl rfl fun _ => rfl
    | some l =>
      have registered : d.contains id = true := by
        rw [Directory.contains_eq_isSome, Directory.get?_update matched.named hop, if_pos rfl]
        rfl
      exact (updated'.arm now registered (some l)).congr rfl rfl fun _ => rfl

omit [Journal J] in
theorem Matched.renew {m : Mediator J} (matched : m.Matched) (now : Instant) (id : ComponentId)
    (lease : Lease) : (m.renew now id lease).2.Matched := by
  rcases m.renew_cases now id lease with ⟨e, h⟩ | ⟨registered, h⟩
  · rw [h]
    exact matched.called
  · rw [h]
    exact matched.called.arm now registered (some lease)

theorem Matched.unregister {m : Mediator J} (matched : m.Matched) (id : ComponentId) :
    (m.unregister id).2.Matched := by
  rcases m.unregister_cases id with ⟨e, h⟩ | ⟨c, hget, h⟩
  · rw [h]
    exact matched.called
  · have removed : Matched { m with registry := m.registry.after (m.directory.remove id).2
                                    leases := (m.leases.cancel id).2 } :=
      { faultless := matched.faultless
        named := matched.named.remove id
        leased := fun id' => by
          show (m.directory.remove id).2.contains id' = ((m.leases.cancel id).2.get? id').isSome
          rw [Directory.contains_eq_isSome, Directory.get?_remove, LeaseTable.get?_cancel]
          split
          · rfl
          · exact matched.leased id' }
    rw [h]
    exact removed.congr (by simp) (by simp [directory]) fun _ => by simp

/-- The eviction of a component that has lost its lease brings registrations and leases back into
step. -/
theorem MatchedBut.evict {m : Mediator J} {id : ComponentId} (matched : MatchedBut id m) :
    (m.evict id).2.Matched := by
  rcases evict_cases matched.unleased with ⟨e, hfail, h⟩ | ⟨hget, h⟩ | ⟨c, hget, h⟩
  · exact absurd hfail (matched.faultless.not_fails .remove)
  · rw [h]
    refine ⟨matched.faultless, matched.named, fun id' => ?_⟩
    by_cases hid : id' = id
    · show m.directory.contains id' = (m.leases.get? id').isSome
      rw [hid, Directory.contains_eq_isSome, hget, matched.unleased]
      rfl
    · exact matched.leased id' hid
  · have removed : Matched { m with registry := m.registry.after (m.directory.remove id).2 } :=
      { faultless := matched.faultless
        named := matched.named.remove id
        leased := fun id' => by
          show (m.directory.remove id).2.contains id' = (m.leases.get? id').isSome
          rw [Directory.contains_eq_isSome, Directory.get?_remove]
          split
          · next hid => rw [hid, matched.unleased]; rfl
          · next hid => exact matched.leased id' hid }
    rw [h]
    exact removed.congr (by simp) (by simp [directory]) fun _ => by simp

theorem Matched.evict {m : Mediator J} (matched : m.Matched) (id : ComponentId) :
    (m.evict id).2.Matched := by
  cases hlease : (m.leases.get? id).isSome with
  | true =>
    rw [evict_of_leased hlease]
    exact matched
  | false =>
    have unleased : m.leases.get? id = none := by simpa using hlease
    exact MatchedBut.evict
      ⟨matched.faultless, matched.named, unleased, fun id' _ => matched.leased id'⟩

theorem Matched.conclude {m : Mediator J} (matched : m.Matched) (now : Instant) (x : Expiry)
    (outcome : HandshakeOutcome) : (m.conclude now x outcome).Matched := by
  unfold Mediator.conclude
  rcases m.leases.resolve_cases now x outcome with
    ⟨-, h⟩ | ⟨hawaiting, ⟨lease, -, h⟩ | ⟨-, reason, h⟩⟩
  · rw [h]
    exact matched
  · -- The answer was awaited, so the component still has its lease and is registered.
    obtain ⟨e, he, -⟩ := LeaseTable.isAwaiting_iff.mp hawaiting
    have registered : m.directory.contains x.component = true := by
      rw [matched.leased, he]
      rfl
    rw [h]
    exact matched.arm now registered (some lease)
  · rw [h]
    refine MatchedBut.evict ⟨matched.faultless, matched.named, ?_, fun id' hid => ?_⟩
    · show (m.leases.drop x.component).get? x.component = none
      rw [LeaseTable.get?_drop, if_pos rfl]
    · show m.directory.contains id' = ((m.leases.drop x.component).get? id').isSome
      rw [LeaseTable.get?_drop, if_neg hid]
      exact matched.leased id'

theorem Matched.handleExpiry {m : Mediator J} (matched : m.Matched) (now : Instant) (x : Expiry) :
    (m.handleExpiry now x).Matched := by
  have begun := m.leases.isSome_get?_beginHandshake x
  unfold Mediator.handleExpiry
  rcases m.leases.beginHandshake_cases x with h | ⟨e, he, -, -, h⟩
  · rw [h]
    exact matched
  · have registered : m.directory.contains x.component = true := by
      rw [matched.leased, he]
      rfl
    rw [h] at begun ⊢
    rcases m.registry.get_cases x.component with ⟨e, hfail, hget⟩ | hget
    · exact absurd hfail (matched.faultless.not_fails .get)
    · rw [hget]
      -- What has a lease is registered, so there is somebody to ask.
      obtain ⟨c, hc⟩ := Option.isSome_iff_exists.mp registered
      have hc' : m.registry.directory.get? x.component = some c := hc
      rw [hc']
      exact matched.congr rfl rfl begun

theorem Matched.handleCompletion {m : Mediator J} (matched : m.Matched) (now : Instant)
    (c : Completion) : (m.handleCompletion now c).Matched := by
  unfold Mediator.handleCompletion
  split
  · exact matched.conclude now _ _
  · exact matched

theorem Matched.reinstate {m : Mediator J} (matched : m.Matched) (now : Instant)
    (answers : List (Component × Bool)) : (m.reinstate now answers).2.Matched := by
  induction answers generalizing m with
  | nil => exact matched
  | cons answer rest ih =>
    obtain ⟨c, answered⟩ := answer
    cases answered with
    | false => exact ih (m := m.forget c.id) (matched.congr rfl rfl fun _ => rfl)
    | true =>
      unfold Mediator.reinstate
      rcases m.registry.add_cases c with ⟨e, h⟩ | ⟨previous, d, hop, h⟩
      · rw [h]
        exact matched.called
      · rw [h]
        exact ih (matched.add now hop none)

omit [Journal J] in
theorem Matched.query {m : Mediator J} (matched : m.Matched) (q : Option Query) :
    (m.query q).2.Matched := by
  rcases m.query_cases q with h | h
  · rw [h]
    exact matched
  · rw [h]
    exact matched.called

omit [Journal J] in
/-- What leaves the registry and the leases alone keeps them in step. -/
theorem Matched.frame {m m' : Mediator J} (matched : m.Matched)
    (hregistry : m'.registry = m.registry) (hleases : m'.leases = m.leases) : m'.Matched := by
  have faults : m'.registry.faults = m.registry.faults := by rw [hregistry]
  refine matched.congr faults (congrArg Registry.directory hregistry) ?_
  intro id
  rw [hleases]

omit [Journal J] in
theorem Matched.queryPage {m : Mediator J} (matched : m.Matched) (q : Option Query)
    (pageSize : Option Nat) : (m.queryPage q pageSize).2.Matched := by
  rcases m.queryPage_cases q pageSize with h | ⟨cursors, h⟩
  · rw [h]
    exact matched.query q
  · rw [h]
    exact (matched.query q).frame rfl rfl

/-- Every operation as a whole keeps registrations and leases in step. -/
theorem Matched.perform {m : Mediator J} (matched : m.Matched) (now : Instant) (o : Operation) :
    (m.perform now o).Matched := by
  cases o with
  | register c lease => exact matched.register now c lease
  | update id delta mode lease => exact matched.update now id delta mode lease
  | renew id lease => exact matched.renew now id lease
  | unregister id => exact matched.unregister id
  | evict id => exact matched.evict id
  | handleExpiry x => exact matched.handleExpiry now x
  | handleCompletion c => exact matched.handleCompletion now c
  | reinstate answers => exact matched.reinstate now answers
  | restore answers =>
    change (m.restore now answers).2.Matched
    rcases m.restore_cases now answers with h | ⟨cs, -, h⟩
    · rw [h]
      exact matched
    · rw [h]
      exact matched.reinstate now _
  | subscribe r =>
    rw [perform_subscribe]
    obtain ⟨hregistry, hleases, -⟩ := m.subscribe_frame r
    exact matched.frame hregistry hleases
  | unsubscribe id =>
    rw [perform_unsubscribe]
    obtain ⟨hregistry, hleases, -⟩ := m.unsubscribe_frame id
    exact matched.frame hregistry hleases
  | query q => exact matched.query q
  | queryPage q pageSize => exact matched.queryPage q pageSize
  | queryNext cursor =>
    obtain ⟨cursors, h⟩ := m.queryNext_cases cursor
    change (m.queryNext cursor).2.Matched
    rw [h]
    exact matched.frame rfl rfl
  | fire =>
    have kept : ∀ id, ((m.leases.fire now).2.get? id).isSome = (m.leases.get? id).isSome :=
      fun _ => rfl
    exact matched.congr rfl rfl kept
  | launch network => exact matched.frame rfl rfl
  | land => exact matched.frame rfl rfl
  | receive =>
    unfold Mediator.perform
    cases m.dispatcher.receive with
    | none => exact matched
    | some taken => exact matched.frame rfl rfl

theorem Matched.after {m : Mediator J} (matched : m.Matched)
    (history : List (Instant × Operation)) : (m.after history).Matched := by
  induction history generalizing m with
  | nil => exact matched
  | cons o rest ih => exact ih (matched.perform o.1 o.2)

/-- After any history, in which expiries and completions come as they like, a component is
registered exactly if it has a lease. So a component is unknown exactly if it is not registered,
every registered one has a lease to be evicted by, and no lease stays behind. -/
theorem registered_iff_leased (settings : MediatorSettings) (journal : J)
    (cursorNames : Nat → String) (subscriptionNames : Nat → SubscriptionId)
    (history : List (Instant × Operation)) (id : ComponentId) :
    let m := (new settings journal cursorNames subscriptionNames).after history
    ((∃ c, m.directory.get? id = some c) ↔ ∃ e, m.leases.get? id = some e) ∧
    (m.standing id = .unregistered ↔ m.directory.get? id = none) := by
  intro m
  have matched : m.Matched :=
    (matched_new settings journal cursorNames subscriptionNames).after history
  have hsome : (m.directory.get? id).isSome = (m.leases.get? id).isSome := matched.leased id
  constructor
  · rw [← Option.isSome_iff_exists, ← Option.isSome_iff_exists, hsome]
  · have hstanding : m.standing id = .unregistered ↔ m.leases.get? id = none := by
      unfold standing
      cases m.leases.get? id with
      | none => simp
      | some e => cases he : e.phase <;> simp [he]
    rw [hstanding, ← Option.isNone_iff_eq_none, ← Option.isNone_iff_eq_none,
      ← Option.not_isSome, ← Option.not_isSome, hsome]

end Journaled

end Mediator

end Rendezvous
