import Rendezvous.Proofs.Lease.Handshake
import Rendezvous.Proofs.Service.Membership
import Rendezvous.Proofs.Service.Restart
import Rendezvous.Proofs.Service.Subscription
/-!
# The end of a lease

What comes of asking a component at the end of its lease has one of three consequences
(`Mediator.leaseEnd_decides`). If the answer is not awaited any more, nothing happens. If it is a
renewal by this component, the component stays and gets a new lease. Whatever else it is, a failure,
another message or the renewal of somebody else, the component goes: it is neither registered nor
leased nor in the journal any more, and it has no subscription. There is no fourth way, in which a
component would stay without an answer.

The first and the second only need the lease table. For the third, the registry must not fail, the
component must have been registered as long as it had a lease, and the journal must be one that
strikes out whom it forgets, from its file too if it has one; `Mediator.Orderly` says so, and every
operation keeps it.
-/

namespace Rendezvous

/-- Whether a kind of journals strikes out whom it forgets, as long as nothing has gone wrong. -/
structure Journal.Strikes {J : Type} [Journal J] (Sane : J → Prop)
    (Lacks : J → ComponentId → Prop) : Prop where
  record : ∀ j c, Sane j → Sane (Journal.record j c).2
  forget : ∀ j id, Sane j → Sane (Journal.forget j id).2
  lacks : ∀ j id, Sane j → Lacks (Journal.forget j id).2 id

theorem NoJournal.strikes :
    Journal.Strikes (fun _ : NoJournal => True) fun j id =>
      ∀ cs, Journal.load j = .ok cs → ∀ c ∈ cs, c.id ≠ id where
  record _ _ _ := trivial
  forget _ _ _ := trivial
  lacks _ _ _ cs h := by
    cases h
    simp

theorem RegistrationLog.strikes : Journal.Strikes RegistrationLog.Filed RegistrationLog.Lacks where
  record _ c filed := filed.record c
  forget _ id filed := filed.forget id
  lacks l id filed := by
    refine (filed.forget id).lacks ?_
    rw [RegistrationLog.forget_entries, if_pos rfl]

namespace Mediator

section Journaled

variable {J : Type} [Journal J]

theorem conclude_of_stale (now : Instant) {m : Mediator J} {x : Expiry}
    (stale : m.leases.isAwaiting x = false) (outcome : HandshakeOutcome) :
    m.conclude now x outcome = m := by
  rcases m.leases.resolve_cases now x outcome with ⟨-, h⟩ | ⟨awaited, -⟩
  · unfold conclude
    rw [h]
  · rw [stale] at awaited
    cases awaited

theorem conclude_of_renewed (now : Instant) {m : Mediator J} {x : Expiry}
    (awaited : m.leases.isAwaiting x = true) (lease : Lease) :
    m.conclude now x (.renewed lease) =
      { m with leases := (m.leases.arm now x.component (some lease)).2 } := by
  rcases m.leases.resolve_cases now x (.renewed lease) with
    ⟨stale, -⟩ | ⟨-, ⟨lease', hlease, h⟩ | ⟨other, -⟩⟩
  · rw [stale] at awaited
    cases awaited
  · cases hlease
    unfold conclude
    rw [h]
  · exact absurd rfl (other lease)

theorem conclude_of_ended (now : Instant) {m : Mediator J} {x : Expiry}
    (awaited : m.leases.isAwaiting x = true) {outcome : HandshakeOutcome}
    (ended : ∀ lease, outcome ≠ .renewed lease) :
    m.conclude now x outcome =
      (evict { m with leases := m.leases.drop x.component } x.component).2 := by
  rcases m.leases.resolve_cases now x outcome with
    ⟨stale, -⟩ | ⟨-, ⟨lease, hlease, -⟩ | ⟨-, reason, h⟩⟩
  · rw [stale] at awaited
    cases awaited
  · exact absurd hlease (ended lease)
  · unfold conclude
    rw [h]

/-- What holds of a service with a journal of the given kind, whatever it has gone through. -/
structure Orderly (m : Mediator J) (settings : LeaseSettings) (Sane : J → Prop) : Prop where
  matched : m.Matched
  subscribed : m.Subscribed
  granting : m.leases.settings = settings
  numbered : m.leases.Numbered
  journaled : Sane m.journal

omit [Journal J] in
theorem orderly_new (settings : MediatorSettings) {journal : J} {Sane : J → Prop}
    (sane : Sane journal) (cursorNames : Nat → String)
    (subscriptionNames : Nat → SubscriptionId) :
    (new settings journal cursorNames subscriptionNames).Orderly settings.lease Sane where
  matched := matched_new settings journal cursorNames subscriptionNames
  subscribed := subscribed_new settings journal cursorNames subscriptionNames
  granting := rfl
  numbered _ _ h := by cases h
  journaled := sane

variable {m : Mediator J} {settings : LeaseSettings} {Sane : J → Prop}
  {Lacks : J → ComponentId → Prop}

theorem Orderly.perform (h : m.Orderly settings Sane) (strikes : Journal.Strikes Sane Lacks)
    (now : Instant) (o : Operation) : (m.perform now o).Orderly settings Sane := by
  have effect := m.perform_effect now h.matched.named o
  constructor
  · exact h.matched.perform now o
  · exact h.subscribed.perform h.matched.named now o
  · exact effect.leases.settings.trans h.granting
  · exact h.numbered.evolves effect.leases
  · exact effect.journal strikes.record strikes.forget h.journaled

theorem Orderly.after (h : m.Orderly settings Sane) (strikes : Journal.Strikes Sane Lacks)
    (history : List (Instant × Operation)) : (m.after history).Orderly settings Sane := by
  induction history generalizing m with
  | nil => exact h
  | cons o rest ih => exact ih (h.perform strikes o.1 o.2)

/-- An eviction leaves nothing of a component. -/
theorem Orderly.evicted (h : m.Orderly settings Sane) (strikes : Journal.Strikes Sane Lacks)
    {id : ComponentId} (leased : (m.leases.get? id).isSome = true) :
    let m' := (evict { m with leases := m.leases.drop id } id).2
    m'.directory.get? id = none ∧ m'.leases.get? id = none ∧ Lacks m'.journal id ∧
      (∀ s ∈ m'.subscriptions.list, s.owner ≠ id) ∧
      m'.self.subscribers.contains id.text = false := by
  intro m'
  have unleased : (m.leases.drop id).get? id = none := by
    rw [LeaseTable.get?_drop, if_pos rfl]
  have registered : m.directory.contains id = true := (h.matched.leased id).trans leased
  rw [Directory.contains_eq_isSome] at registered
  have hevict : ∃ c, c.id = id ∧
      m' = depart { m with registry := m.registry.after (m.directory.remove id).2
                           leases := m.leases.drop id } c := by
    rcases evict_cases (m := { m with leases := m.leases.drop id }) unleased with
      ⟨e, fails, -⟩ | ⟨hnone, -⟩ | ⟨c, hget, heq⟩
    · exact absurd fails (h.matched.faultless.not_fails .remove)
    · have hnone' : m.directory.get? id = none := hnone
      rw [hnone'] at registered
      cases registered
    · exact ⟨c, h.matched.named id c hget, congrArg Prod.snd heq⟩
  obtain ⟨c, rfl, hm'⟩ := hevict
  have subscribed : m'.Subscribed := by
    have removed : Subscribed { m with registry := m.registry.after (m.directory.remove c.id).2
                                       leases := m.leases.drop c.id } :=
      h.subscribed.frame rfl rfl rfl
    rw [hm']
    exact removed.depart c
  have unowned : ∀ s ∈ m'.subscriptions.list, s.owner ≠ c.id := by
    rw [hm', depart_eq]
    intro s hs
    simpa using (List.mem_filter.mp hs).2
  refine ⟨?_, ?_, ?_, unowned, ?_⟩
  · show m'.registry.directory.get? c.id = none
    rw [hm', depart_registry]
    show (m.directory.remove c.id).2.get? c.id = none
    rw [Directory.get?_remove, if_pos rfl]
  · rw [hm', depart_leases]
    exact unleased
  · rw [hm', depart_journal]
    exact strikes.lacks m.journal c.id h.journaled
  · rw [subscribed.attended, ← Bool.not_eq_true, SubscriptionTable.contains_owners]
    rintro ⟨s, hs, htext⟩
    exact unowned s hs (congrArg ComponentId.mk htext)

/-- Whether a component is being asked at the end of the given lease. -/
def Awaits (m : Mediator J) (id : ComponentId) (generation : Nat) : Prop :=
  ∃ e, m.leases.get? id = some e ∧ e.generation = generation ∧ e.phase = .handshaking

/-- The three consequences of what comes of asking a component at the end of its lease: none if it
is not awaited; a new lease, and nothing else, if it is a renewal by the component; and otherwise
the component is gone from the registry, the leases, the journal, the subscriptions and the
subscribers. -/
structure Decides (m m' : Mediator J) (settings : LeaseSettings) (Lacks : J → ComponentId → Prop)
    (now : Instant) (id : ComponentId) (generation : Nat) (result : Delivery) : Prop where
  unawaited : ¬ m.Awaits id generation → m' = m
  renewed : ∀ n ms, m.Awaits id generation → result = .ok n → RenewedBy id ms n →
    let granted := settings.clamp (.ofMillis ms)
    (m.directory.get? id).isSome = true ∧ m' = { m with leases := m'.leases } ∧
      m'.leases.get? id = some ⟨⟨granted⟩, now + granted, m.leases.nextGeneration, .active⟩ ∧
      ∀ id' e, m.leases.get? id' = some e → e.generation < m.leases.nextGeneration
  ended : m.Awaits id generation → (∀ n ms, result = .ok n → ¬ RenewedBy id ms n) →
    m'.directory.get? id = none ∧ m'.leases.get? id = none ∧ Lacks m'.journal id ∧
      (∀ s ∈ m'.subscriptions.list, s.owner ≠ id) ∧
      m'.self.subscribers.contains id.text = false

theorem Orderly.decides (h : m.Orderly settings Sane) (strikes : Journal.Strikes Sane Lacks)
    (now : Instant) (id : ComponentId) (generation : Nat) (result : Delivery) :
    m.Decides (m.handleCompletion now ⟨⟨id, .leaseEnd generation⟩, result⟩) settings Lacks now id
      generation result := by
  have hconclude : m.handleCompletion now ⟨⟨id, .leaseEnd generation⟩, result⟩ =
      m.conclude now ⟨id, generation⟩ (.ofDelivery id result) := rfl
  have hawaiting : m.leases.isAwaiting ⟨id, generation⟩ = true ↔ m.Awaits id generation :=
    LeaseTable.isAwaiting_iff
  rw [hconclude]
  constructor
  · intro unawaited
    exact conclude_of_stale now (Bool.eq_false_iff.mpr (mt hawaiting.mp unawaited)) _
  · intro n ms awaited hresult renewed
    have houtcome : HandshakeOutcome.ofDelivery id result = .renewed (.ofMillis ms) :=
      HandshakeOutcome.ofDelivery_eq_renewed.mpr ⟨n, ms, hresult, renewed, rfl⟩
    rw [houtcome, conclude_of_renewed now (hawaiting.mpr awaited) (.ofMillis ms)]
    obtain ⟨e, leased, -⟩ := awaited
    refine ⟨?_, rfl, ?_, h.numbered⟩
    · rw [← Directory.contains_eq_isSome, h.matched.leased, leased]
      rfl
    · show (m.leases.arm now id (some (.ofMillis ms))).2.get? id = _
      rw [LeaseTable.get?_arm, if_pos rfl, ← h.granting]
      rfl
  · intro awaited unrenewed
    have hended : ∀ lease, HandshakeOutcome.ofDelivery id result ≠ .renewed lease := by
      intro lease houtcome
      obtain ⟨n, ms, hresult, renewed, -⟩ := HandshakeOutcome.ofDelivery_eq_renewed.mp houtcome
      exact unrenewed n ms hresult renewed
    rw [conclude_of_ended now (hawaiting.mpr awaited) hended]
    obtain ⟨e, leased, -⟩ := awaited
    exact h.evicted strikes (by rw [leased]; rfl)

end Journaled

/-! ## After any events -/

theorem Orderly.atClock {m : Mediator RegistrationLog} {settings : LeaseSettings}
    (h : m.Orderly settings RegistrationLog.Filed) (clock : Timestamp) :
    Orderly { m with journal := m.journal.atClock clock } settings RegistrationLog.Filed where
  matched := h.matched.frame rfl rfl
  subscribed := h.subscribed.frame rfl rfl rfl
  granting := h.granting
  numbered := h.numbered
  journaled := h.journaled.atClock clock

theorem Orderly.experience {m : Mediator RegistrationLog} {settings : LeaseSettings}
    (h : m.Orderly settings RegistrationLog.Filed) (history : List Event) :
    (history.foldl experience m).Orderly settings RegistrationLog.Filed := by
  induction history generalizing m with
  | nil => exact h
  | cons e rest ih =>
    exact ih ((h.atClock e.clock).perform RegistrationLog.strikes e.now e.operation)

/-- What comes of asking a component at the end of its lease has one of three consequences, after
any history of a service without a journal, and after any events of a service with a journal in a
file that can be written. -/
theorem leaseEnd_decides (settings : MediatorSettings) (cursorNames : Nat → String)
    (subscriptionNames : Nat → SubscriptionId) (now : Instant) (id : ComponentId)
    (generation : Nat) (result : Delivery) :
    (∀ history : List (Instant × Operation),
      let m := (new settings (⟨⟩ : NoJournal) cursorNames subscriptionNames).after history
      m.Decides (m.handleCompletion now ⟨⟨id, .leaseEnd generation⟩, result⟩) settings.lease
        (fun j id => ∀ cs, Journal.load j = .ok cs → ∀ c ∈ cs, c.id ≠ id) now id generation
        result) ∧
    ∀ (first clock : Timestamp) (disk : Disk) (log : RegistrationLog) (history : List Event),
      RegistrationLog.openOn first disk = .ok log → (∀ n, disk.fails n = false) →
      let before := history.foldl experience (new settings log cursorNames subscriptionNames)
      let m := { before with journal := before.journal.atClock clock }
      m.Decides (m.handleCompletion now ⟨⟨id, .leaseEnd generation⟩, result⟩) settings.lease
        RegistrationLog.Lacks now id generation result := by
  constructor
  · intro history m
    have orderly : m.Orderly settings.lease fun _ => True :=
      (orderly_new settings trivial cursorNames subscriptionNames).after NoJournal.strikes history
    exact orderly.decides NoJournal.strikes now id generation result
  · intro first clock disk log history opened intact before m
    have filed : log.Filed := RegistrationLog.filed_openOn opened intact
    have orderly : m.Orderly settings.lease RegistrationLog.Filed :=
      ((orderly_new settings filed cursorNames subscriptionNames).experience history).atClock clock
    exact orderly.decides RegistrationLog.strikes now id generation result

/-- A desk that is registered and has a subscription, and whose lease then runs out. -/
def deskUnheard : List Event :=
  let desk : Component := { id := ⟨"desk"⟩, kind := .widget }
  let wish : SubscribeRequest :=
    ⟨desk.id, ⟨"localhost", 7000⟩, "newComponent", true, some (.kindIs .widget)⟩
  [⟨noon, ⟨0⟩, .register desk none⟩, ⟨noon, ⟨1⟩, .subscribe wish⟩,
    ⟨noon, .ofSeconds 60, .handleExpiry ⟨desk.id, 1⟩⟩]

/-- The desk stays if it answers with a renewal, here for two hours of which it gets one. It goes if
nothing comes within the time. -/
theorem leaseEnd_decides_deskUnheard :
    let start := new {} (RegistrationLog.fresh noon) (fun _ => "") fun n => ⟨.supply 0 n⟩
    let before := deskUnheard.foldl experience start
    let m := { before with journal := before.journal.atClock noon }
    let id : ComponentId := ⟨"desk"⟩
    let renewal := (HandshakeReply.renewal id (.ofMillis 7200000)).toNode
    let ended (result : Delivery) :=
      m.handleCompletion (.ofSeconds 61) ⟨⟨id, .leaseEnd 1⟩, result⟩
    RegistrationLog.openOn noon {} = .ok (RegistrationLog.fresh noon) ∧
    m.Awaits id 1 ∧
    RenewedBy id 7200000 renewal ∧
    (ended (.ok renewal)).leases.get? id =
      some ⟨⟨.ofSeconds 3600⟩, .ofSeconds 3661, 2, .active⟩ ∧
    (ended (.error (.timeout (.ofSeconds 5)))).directory.get? id = none ∧
    (ended (.error (.timeout (.ofSeconds 5)))).journal.Lacks id := by
  intro start before m id renewal ended
  have opened : RegistrationLog.openOn noon {} = .ok (RegistrationLog.fresh noon) := rfl
  have intact : ∀ n, ({} : Disk).fails n = false := fun _ => rfl
  have awaited : m.Awaits id 1 :=
    ⟨⟨⟨.ofSeconds 60⟩, .ofSeconds 60, 1, .handshaking⟩, by decide +kernel, rfl, rfl⟩
  have renewed : RenewedBy id 7200000 renewal :=
    ⟨rfl, rfl, _, _, rfl, rfl, by decide +kernel⟩
  have decides (result : Delivery) := (leaseEnd_decides {} (fun _ => "")
    (fun n => ⟨.supply 0 n⟩) (.ofSeconds 61) id 1 result).2 noon noon {} _ deskUnheard opened intact
  have stays := (decides (.ok renewal)).renewed renewal 7200000 awaited rfl renewed
  have goes := (decides (.error (.timeout (.ofSeconds 5)))).ended awaited fun n ms h => by cases h
  have hgranted : m.leases.nextGeneration = 2 := by decide +kernel
  refine ⟨opened, awaited, renewed, ?_, goes.1, goes.2.2.1⟩
  rw [stays.2.2.1, hgranted]
  decide +kernel

end Mediator

end Rendezvous
