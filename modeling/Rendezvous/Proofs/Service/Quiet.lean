import Rendezvous.Proofs.Service.Membership
import Rendezvous.Proofs.Service.Notification
import Rendezvous.Proofs.Service.Subscription
/-!
# Leases and requests from one operation to the next

Whatever the service is asked, and whatever comes of its requests, leases only start or end, and
nothing but notifications is handed to the dispatcher (`Mediator.Quiet`). The only thing that goes
further is an expiry: it makes the service ask a component whose lease has run out
(`Mediator.handleExpiry_cases`). What comes of the question ends the arming that it was about
(`Mediator.ends_handleCompletion`).
-/

namespace Rendezvous

namespace Mediator

variable {J : Type}

/-- Whether an operation is something that the service is asked; the others are done by what is
around it. -/
def Operation.isRequest : Operation → Bool
  | .handleExpiry _ | .handleCompletion _ | .fire | .launch _ | .land | .receive => false
  | _ => true

/-- Whether leases only end or start, and only notifications are handed to the dispatcher. -/
structure Quiet (now : Instant) (m m' : Mediator J) : Prop where
  leases : m.leases.Rearms now m'.leases
  dispatcher : ∃ errands, m'.dispatcher =
      { m.dispatcher with waiting := m.dispatcher.waiting ++ errands } ∧
    ∀ q ∈ errands, q.wait = m.settings.dispatch.requestTimeout ∧
      ∀ id generation, q.key ≠ ⟨id, .leaseEnd generation⟩

theorem Quiet.same {now : Instant} {m m' : Mediator J} (leases : m.leases.Rearms now m'.leases)
    (dispatcher : m'.dispatcher = m.dispatcher) : m.Quiet now m' :=
  ⟨leases, [], by rw [dispatcher, List.append_nil], fun _ h => absurd h List.not_mem_nil⟩

theorem Quiet.notify {now : Instant} {m m' : Mediator J} (leases : m.leases.Rearms now m'.leases)
    {callback : Callback} {c : Component}
    (dispatcher : m'.dispatcher = (m.notify callback c).dispatcher) : m.Quiet now m' := by
  refine ⟨leases, _, dispatcher.trans (m.notify_dispatcher callback c), fun q hq => ?_⟩
  obtain ⟨s, -, rfl⟩ := List.mem_map.mp hq
  exact ⟨rfl, fun _ _ h => by cases h⟩

section Journaled

variable [Journal J]

/-- A departure notifies, whatever is done to the registry and the leases before. -/
theorem Quiet.depart {now : Instant} {m : Mediator J} {registry : Registry} {leases : LeaseTable}
    (h : m.leases.Rearms now leases) (c : Component) :
    m.Quiet now (Mediator.depart { m with registry, leases } c) := by
  let departed : Mediator J := Mediator.depart { m with registry, leases } c
  have hleases : m.leases.Rearms now departed.leases := by
    rw [depart_leases]
    exact h
  have hdispatcher : departed.dispatcher = (m.notify .removedComponent c).dispatcher := by
    unfold departed
    rw [depart_eq]
    rfl
  exact .notify hleases hdispatcher

section Operations

variable {m : Mediator J} (numbered : m.leases.Numbered) (now : Instant)
include numbered

theorem quiet_evict (id : ComponentId) : m.Quiet now (m.evict id).2 := by
  have same : m.leases.Rearms now m.leases := .refl numbered now
  cases hlease : m.leases.get? id with
  | some e =>
    rw [evict_of_leased (by rw [hlease]; rfl)]
    exact .same same rfl
  | none =>
    rcases evict_cases hlease with ⟨e, -, h⟩ | ⟨-, h⟩ | ⟨c, -, h⟩
    · rw [h]
      exact .same same rfl
    · rw [h]
      exact .same same rfl
    · rw [h]
      exact .depart same c

theorem quiet_reinstate (answers : List (Component × Bool)) :
    m.Quiet now (m.reinstate now answers).2 := by
  induction answers generalizing m with
  | nil => exact .same (.refl numbered now) rfl
  | cons answer rest ih =>
    obtain ⟨c, answered⟩ := answer
    cases answered with
    | false =>
      have quiet := ih (m := m.forget c.id) numbered
      exact ⟨quiet.leases, quiet.dispatcher⟩
    | true =>
      unfold reinstate
      rcases m.registry.add_cases c with ⟨e, h⟩ | ⟨previous, d, -, h⟩
      · rw [h]
        exact .same (.refl numbered now) rfl
      · rw [h]
        have quiet := ih (m := { m with registry := m.registry.after d
                                        leases := (m.leases.arm now c.id none).2 })
          (numbered.arm now c.id none)
        exact ⟨(numbered.rearms_arm now c.id none).trans quiet.leases, quiet.dispatcher⟩

/-- What the service is asked is quiet. -/
theorem quiet_perform {o : Operation} (h : o.isRequest = true) :
    m.Quiet now (m.perform now o) := by
  have same : m.leases.Rearms now m.leases := .refl numbered now
  cases o with
  | register c lease =>
    show m.Quiet now (m.register now c lease).2
    rcases m.register_cases now c lease with ⟨e, h⟩ | ⟨previous, d, -, h⟩
    · rw [h]
      exact .same same rfl
    · rw [h]
      exact .notify (numbered.rearms_arm now c.id lease) rfl
  | update id delta mode lease =>
    show m.Quiet now (m.update now id delta mode lease).2
    rcases m.update_cases now id delta mode lease with ⟨e, h⟩ | ⟨updated, d, -, h⟩
    · rw [h]
      exact .same same rfl
    · rw [h]
      refine .notify ?_ rfl
      cases lease with
      | none => exact same
      | some l => exact numbered.rearms_arm now id (some l)
  | renew id lease =>
    show m.Quiet now (m.renew now id lease).2
    rcases m.renew_cases now id lease with ⟨e, h⟩ | ⟨-, h⟩
    · rw [h]
      exact .same same rfl
    · rw [h]
      exact .same (numbered.rearms_arm now id (some lease)) rfl
  | unregister id =>
    show m.Quiet now (m.unregister id).2
    rcases m.unregister_cases id with ⟨e, h⟩ | ⟨c, -, h⟩
    · rw [h]
      exact .same same rfl
    · rw [h]
      exact .depart (numbered.rearms_cancel now id) c
  | evict id => exact quiet_evict numbered now id
  | subscribe r =>
    show m.Quiet now (m.subscribe r).2
    rcases m.subscribe_cases r with ⟨e, h⟩ | ⟨s, -, -, h⟩
    · rw [h]
      exact .same same rfl
    · rw [h]
      exact .same same rfl
  | unsubscribe id =>
    show m.Quiet now (m.unsubscribe id).2
    unfold unsubscribe
    split
    · exact .same same rfl
    · simp only
      split
      · exact .same same rfl
      · exact .same same rfl
  | query q =>
    show m.Quiet now (m.query q).2
    rcases m.query_cases q with h | h
    · rw [h]
      exact .same same rfl
    · rw [h]
      exact .same same rfl
  | queryPage q pageSize =>
    show m.Quiet now (m.queryPage q pageSize).2
    obtain ⟨registry, cursors, -, h⟩ := m.queryPage_cursors q pageSize
    rw [h]
    exact .same same rfl
  | queryNext cursor =>
    show m.Quiet now (m.queryNext cursor).2
    obtain ⟨cursors, h⟩ := m.queryNext_cases cursor
    rw [h]
    exact .same same rfl
  | restore answers =>
    show m.Quiet now (m.restore now answers).2
    rcases m.restore_cases now answers with h | ⟨cs, -, h⟩
    · rw [h]
      exact .same same rfl
    · rw [h]
      exact quiet_reinstate numbered now _
  | reinstate answers => exact quiet_reinstate numbered now answers
  | _ => cases h

omit numbered in
theorem leases_conclude (m : Mediator J) (x : Expiry) (outcome : HandshakeOutcome) :
    (m.conclude now x outcome).leases = (m.leases.resolve now x outcome).2 := by
  have hevict : ∀ m' : Mediator J, (m'.evict x.component).2.leases = m'.leases := by
    intro m'
    cases hlease : m'.leases.get? x.component with
    | some e => rw [evict_of_leased (by rw [hlease]; rfl)]
    | none =>
      rcases evict_cases hlease with ⟨e, -, h⟩ | ⟨-, h⟩ | ⟨c, -, h⟩
      · rw [h]
      · rw [h]
      · rw [h, depart_leases]
  unfold conclude
  simp only
  split
  · rfl
  · rfl
  · exact hevict _

theorem quiet_conclude (x : Expiry) (outcome : HandshakeOutcome) :
    m.Quiet now (m.conclude now x outcome) := by
  have hleases : m.leases.Rearms now (m.conclude now x outcome).leases := by
    rw [leases_conclude]
    exact numbered.rearms_resolve now x outcome
  have same : m.Quiet now m := .same (.refl numbered now) rfl
  refine ⟨hleases, ?_⟩
  unfold conclude
  simp only
  split
  · exact same.dispatcher
  · exact same.dispatcher
  · have resolved : (m.leases.resolve now x outcome).2.Numbered :=
      numbered.evolves (m.leases.evolves_resolve now x outcome)
    exact (quiet_evict (m := { m with leases := (m.leases.resolve now x outcome).2 }) resolved now
      x.component).dispatcher

/-- What comes of requests is handled quietly. -/
theorem quiet_handleCompletion (c : Completion) : m.Quiet now (m.handleCompletion now c) := by
  unfold handleCompletion
  split
  · exact quiet_conclude numbered now _ _
  · exact .same (.refl numbered now) rfl

/-- What comes of the question at the end of a lease ends the arming that it was asked for. -/
theorem ends_handleCompletion {c : Completion} {id : ComponentId} {generation : Nat}
    (key : c.key = ⟨id, .leaseEnd generation⟩) {e e' : LeaseEntry}
    (asked : m.leases.get? id = some e) (hgeneration : e.generation = generation)
    (hphase : e.phase = .handshaking)
    (h : (m.handleCompletion now c).leases.get? id = some e') : e'.generation ≠ generation := by
  have awaited : m.leases.isAwaiting ⟨id, generation⟩ = true :=
    LeaseTable.isAwaiting_iff.mpr ⟨e, asked, hgeneration, hphase⟩
  unfold handleCompletion at h
  rw [key] at h
  simp only at h
  rw [leases_conclude] at h
  exact LeaseTable.ends_resolve now numbered awaited _ h

end Operations

/-- The question that is asked at the end of a lease. -/
def question (m : Mediator J) (x : Expiry) (c : Component) : Errand :=
  ⟨⟨x.component, .leaseEnd x.generation⟩, .ofComponent c, leaseEndRequest x.component,
    m.settings.lease.handshakeTimeout⟩

/-- An expiry is passed over, or it makes the service ask a component with a running lease. -/
theorem handleExpiry_cases (now : Instant) {m : Mediator J} (matched : m.Matched) (x : Expiry) :
    (m.handleExpiry now x = m ∧ ∀ e, m.leases.get? x.component = some e →
        e.generation = x.generation → e.phase ≠ .active) ∨
    ∃ e c, m.leases.get? x.component = some e ∧ e.generation = x.generation ∧
      e.phase = .active ∧
      m.handleExpiry now x = { m with
        registry := m.registry.after m.directory
        leases := { m.leases with
          entries := m.leases.entries.insert x.component { e with phase := .handshaking } }
        dispatcher := m.dispatcher.dispatch (m.question x c) } := by
  cases hlease : m.leases.get? x.component with
  | none =>
    refine .inl ⟨?_, fun e h => by cases h⟩
    unfold handleExpiry LeaseTable.beginHandshake
    rw [hlease]
  | some e =>
    by_cases hawake : e.generation = x.generation ∧ e.phase = .active
    · refine .inr ?_
      obtain ⟨hgeneration, hphase⟩ := hawake
      have registered : (m.directory.get? x.component).isSome = true := by
        rw [← Directory.contains_eq_isSome, matched.leased, hlease]
        rfl
      obtain ⟨c, hc⟩ := Option.isSome_iff_exists.mp registered
      refine ⟨e, c, rfl, hgeneration, hphase, ?_⟩
      have hbegin : m.leases.beginHandshake x = (true, { m.leases with
          entries := m.leases.entries.insert x.component { e with phase := .handshaking } }) := by
        unfold LeaseTable.beginHandshake
        simp only [hlease, hgeneration, hphase, and_self, if_true]
      unfold handleExpiry
      rw [hbegin]
      rcases m.registry.get_cases x.component with ⟨e, fails, -⟩ | hget
      · exact absurd fails (matched.faultless.not_fails .get)
      · rw [hget, show m.registry.directory.get? x.component = some c from hc]
        rfl
    · refine .inl ⟨?_, fun e' he' hgeneration hphase => ?_⟩
      · unfold handleExpiry LeaseTable.beginHandshake
        simp only [hlease, if_neg hawake]
      · cases he'
        exact hawake ⟨hgeneration, hphase⟩

theorem evolves_after {m : Mediator J} (named : m.directory.Named)
    (history : List (Instant × Operation)) : m.leases.Evolves (m.after history).leases := by
  induction history generalizing m with
  | nil => exact .refl
  | cons o rest ih =>
    exact (m.perform_effect o.1 named o.2).leases.trans (ih (named_perform named o.1 o.2))

end Journaled

end Mediator

end Rendezvous
