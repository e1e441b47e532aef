import Rendezvous.Proofs.Service.Restart
/-!
# What the journal has no say in

The journal is written in the middle of operations: between a registration and its announcement, and
between a removal and the answer to whoever asked for it. Nothing that comes after may hang on what
becomes of the writing. So two services that differ in their journals alone, down to the kind of
journal and to which of its writes fail, answer every operation alike and differ in their journals
alone after it (`Mediator.Alike.perform`); only a restart reads the journal. Hence a service that is
not restarted shows nothing of its journal to anybody (`Mediator.journal_unseen`).
-/

namespace Rendezvous

namespace Mediator

variable {J K : Type}

/-- What an operation gives to whoever caused it. -/
inductive Response
  | granted (result : Except ServiceError Lease)
  | updated (result : Except ServiceError (Option Lease))
  | done (result : Except ServiceError Unit)
  | subscribed (result : Except ServiceError SubscriptionId)
  | found (result : Except ServiceError (List Summary))
  | page (result : Except ServiceError Page)
  | counted (result : Except ServiceError Nat)
  | fired (timers : List Timer)
  | sent (errands : List Errand)
  | received (completion : Option Completion)
  | nothing

/-- What an operation gives. The operations that only change the service give nothing. -/
def respond [Journal J] (now : Instant) (m : Mediator J) : Operation → Response
  | .register c lease => .granted (m.register now c lease).1
  | .update id delta mode lease => .updated (m.update now id delta mode lease).1
  | .renew id lease => .granted (m.renew now id lease).1
  | .unregister id => .done (m.unregister id).1
  | .evict id => .done (m.evict id).1
  | .subscribe r => .subscribed (m.subscribe r).1
  | .unsubscribe id => .done (m.unsubscribe id).1
  | .query q => .found (m.query q).1
  | .queryPage q pageSize => .page (m.queryPage q pageSize).1
  | .queryNext cursor => .page (m.queryNext cursor).1
  | .restore answers => .counted (m.restore now answers).1
  | .reinstate answers => .counted (m.reinstate now answers).1
  | .fire => .fired (m.leases.fire now).1
  | .launch network => .sent (m.dispatcher.launch network now).1
  | .receive => .received (m.dispatcher.receive.map Prod.fst)
  | .handleExpiry _ | .handleCompletion _ | .land => .nothing

/-- What the operations of a history give, one after the other. -/
def responses [Journal J] (m : Mediator J) : List (Instant × Operation) → List Response
  | [] => []
  | o :: rest => m.respond o.1 o.2 :: (m.perform o.1 o.2).responses rest

/-- Whether an operation reads the journal. -/
def Operation.readsJournal : Operation → Bool
  | .restore _ => true
  | _ => false

/-- The service with another journal. -/
def withJournal (m : Mediator J) (journal : K) : Mediator K := { m with journal }

/-- Whether two services differ in their journals alone. -/
structure Alike (m : Mediator J) (n : Mediator K) : Prop where
  settings : n.settings = m.settings
  self : n.self = m.self
  registry : n.registry = m.registry
  leases : n.leases = m.leases
  subscriptions : n.subscriptions = m.subscriptions
  dispatcher : n.dispatcher = m.dispatcher
  cursors : n.cursors = m.cursors
  subscriptionNames : n.subscriptionNames = m.subscriptionNames
  subscribed : n.subscribed = m.subscribed

/-- Whether two operations have given the same answer, and have left services that differ in their
journals alone. -/
structure SameAnswer {α : Type} (a : Answer J α) (b : Answer K α) : Prop where
  answer : b.1 = a.1
  alike : a.2.Alike b.2

theorem alike_withJournal (m : Mediator J) (journal : K) : m.Alike (m.withJournal journal) :=
  ⟨rfl, rfl, rfl, rfl, rfl, rfl, rfl, rfl, rfl⟩

theorem Alike.exists_eq {m : Mediator J} {n : Mediator K} (alike : m.Alike n) :
    ∃ journal, n = m.withJournal journal := by
  obtain ⟨settings, self, registry, leases, subscriptions, dispatcher, cursors, names, subscribed⟩ :=
    alike
  refine ⟨n.journal, ?_⟩
  cases n
  subst settings self registry leases subscriptions dispatcher cursors names subscribed
  rfl

@[simp] theorem withJournal_registry (m : Mediator J) (journal : K) :
    (m.withJournal journal).registry = m.registry := rfl

@[simp] theorem withJournal_leases (m : Mediator J) (journal : K) :
    (m.withJournal journal).leases = m.leases := rfl

@[simp] theorem withJournal_subscriptions (m : Mediator J) (journal : K) :
    (m.withJournal journal).subscriptions = m.subscriptions := rfl

@[simp] theorem withJournal_dispatcher (m : Mediator J) (journal : K) :
    (m.withJournal journal).dispatcher = m.dispatcher := rfl

@[simp] theorem withJournal_cursors (m : Mediator J) (journal : K) :
    (m.withJournal journal).cursors = m.cursors := rfl

@[simp] theorem withJournal_settings (m : Mediator J) (journal : K) :
    (m.withJournal journal).settings = m.settings := rfl

theorem SameAnswer.exists_eq {α : Type} {a : Answer J α} {b : Answer K α}
    (same : SameAnswer a b) :
    ∃ result m journal, a = (result, m) ∧ b = (result, m.withJournal journal) := by
  obtain ⟨journal, h⟩ := same.alike.exists_eq
  exact ⟨a.1, a.2, journal, rfl, Prod.ext same.answer h⟩

/-! ## What the operations are made of -/

theorem Alike.withRegistry {m : Mediator J} {n : Mediator K} (alike : m.Alike n)
    (registry : Registry) : Alike { m with registry } { n with registry } :=
  { alike with registry := rfl }

theorem Alike.withLeases {m : Mediator J} {n : Mediator K} (alike : m.Alike n)
    (leases : LeaseTable) : Alike { m with leases } { n with leases } :=
  { alike with leases := rfl }

theorem Alike.withDispatcher {m : Mediator J} {n : Mediator K} (alike : m.Alike n)
    (dispatcher : Dispatcher) : Alike { m with dispatcher } { n with dispatcher } :=
  { alike with dispatcher := rfl }

theorem Alike.withCursors {m : Mediator J} {n : Mediator K} (alike : m.Alike n)
    (cursors : CursorTable) : Alike { m with cursors } { n with cursors } :=
  { alike with cursors := rfl }

theorem Alike.withSubscriptions {m : Mediator J} {n : Mediator K} (alike : m.Alike n)
    (subscriptions : SubscriptionTable) :
    Alike { m with subscriptions } { n with subscriptions } :=
  { alike with subscriptions := rfl }

theorem Alike.dropSubscriber {m : Mediator J} {n : Mediator K} (alike : m.Alike n)
    (id : ComponentId) : (m.dropSubscriber id).Alike (n.dropSubscriber id) :=
  { alike with self := by simp only [Mediator.dropSubscriber, alike.self] }

theorem Alike.notify {m : Mediator J} {n : Mediator K} (alike : m.Alike n) (callback : Callback)
    (c : Component) : (m.notify callback c).Alike (n.notify callback c) :=
  { alike with
    dispatcher := by
      simp only [Mediator.notify, alike.settings, alike.subscriptions, alike.dispatcher] }

section Journaled

variable [Journal J] [Journal K]

/-- Writing changes the journal alone, whether it succeeds or not. -/
theorem Alike.record {m : Mediator J} {n : Mediator K} (alike : m.Alike n) (c : Component) :
    (m.record c).Alike (n.record c) :=
  { alike with }

theorem Alike.forget {m : Mediator J} {n : Mediator K} (alike : m.Alike n) (id : ComponentId) :
    (m.forget id).Alike (n.forget id) :=
  { alike with }

theorem Alike.depart {m : Mediator J} {n : Mediator K} (alike : m.Alike n) (c : Component) :
    (m.depart c).Alike (n.depart c) := by
  have notified : (m.notify .removedComponent c).Alike (n.notify .removedComponent c) :=
    alike.notify .removedComponent c
  unfold Mediator.depart
  simp only [notified.subscriptions]
  have gone := notified.withSubscriptions
    ((m.notify .removedComponent c).subscriptions.removeOwnedBy c.id).2
  refine Alike.forget ?_ c.id
  split
  · exact gone
  · exact gone.dropSubscriber c.id

/-! ## The operations -/

theorem Alike.register {m : Mediator J} {n : Mediator K} (alike : m.Alike n) (now : Instant)
    (c : Component) (lease : Option Lease) :
    SameAnswer (m.register now c lease) (n.register now c lease) := by
  obtain ⟨journal, rfl⟩ := alike.exists_eq
  unfold Mediator.register
  rw [withJournal_registry, withJournal_leases]
  rcases m.registry.add c with ⟨e | previous, registry⟩
  · exact ⟨rfl, alike.withRegistry registry⟩
  · have leased := (alike.withRegistry registry).withLeases (m.leases.arm now c.id lease).2
    exact ⟨rfl, (leased.record c).notify .newComponent c⟩

theorem Alike.update {m : Mediator J} {n : Mediator K} (alike : m.Alike n) (now : Instant)
    (id : ComponentId) (delta : Attributes) (mode : UpdateMode) (lease : Option Lease) :
    SameAnswer (m.update now id delta mode lease) (n.update now id delta mode lease) := by
  obtain ⟨journal, rfl⟩ := alike.exists_eq
  unfold Mediator.update
  rw [withJournal_registry, withJournal_leases]
  rcases m.registry.update id delta mode with ⟨e | updated, registry⟩
  · exact ⟨rfl, alike.withRegistry registry⟩
  · have called := alike.withRegistry registry
    cases lease with
    | none =>
      exact ⟨rfl, ((called.withLeases m.leases).record updated).notify .updatedComponent updated⟩
    | some l =>
      have leased := called.withLeases (m.leases.arm now id (some l)).2
      exact ⟨rfl, (leased.record updated).notify .updatedComponent updated⟩

theorem Alike.unregister {m : Mediator J} {n : Mediator K} (alike : m.Alike n)
    (id : ComponentId) : SameAnswer (m.unregister id) (n.unregister id) := by
  obtain ⟨journal, rfl⟩ := alike.exists_eq
  unfold Mediator.unregister
  rw [withJournal_registry, withJournal_leases]
  rcases m.registry.remove id with ⟨e | removed, registry⟩
  · exact ⟨rfl, alike.withRegistry registry⟩
  · cases removed with
    | none => exact ⟨rfl, alike.withRegistry registry⟩
    | some c =>
      have removed := (alike.withRegistry registry).withLeases (m.leases.cancel id).2
      exact ⟨rfl, removed.depart c⟩

theorem Alike.evict {m : Mediator J} {n : Mediator K} (alike : m.Alike n) (id : ComponentId) :
    SameAnswer (m.evict id) (n.evict id) := by
  obtain ⟨journal, rfl⟩ := alike.exists_eq
  unfold Mediator.evict
  rw [withJournal_registry, withJournal_leases]
  split
  · exact ⟨rfl, alike⟩
  · rcases m.registry.remove id with ⟨e | removed, registry⟩
    · exact ⟨rfl, alike.withRegistry registry⟩
    · cases removed with
      | none => exact ⟨rfl, alike.withRegistry registry⟩
      | some c => exact ⟨rfl, (alike.withRegistry registry).depart c⟩

omit [Journal J] [Journal K] in
theorem Alike.renew {m : Mediator J} {n : Mediator K} (alike : m.Alike n) (now : Instant)
    (id : ComponentId) (lease : Lease) : SameAnswer (m.renew now id lease) (n.renew now id lease) := by
  obtain ⟨journal, rfl⟩ := alike.exists_eq
  unfold Mediator.renew
  rw [withJournal_registry, withJournal_leases]
  rcases m.registry.contains id with ⟨e | registered, registry⟩
  · exact ⟨rfl, alike.withRegistry registry⟩
  · cases registered with
    | false => exact ⟨rfl, alike.withRegistry registry⟩
    | true => exact ⟨rfl, (alike.withRegistry registry).withLeases _⟩

omit [Journal J] [Journal K] in
theorem Alike.query {m : Mediator J} {n : Mediator K} (alike : m.Alike n) (q : Option Query) :
    SameAnswer (m.query q) (n.query q) := by
  obtain ⟨journal, rfl⟩ := alike.exists_eq
  unfold Mediator.query
  cases q with
  | none => exact ⟨rfl, alike⟩
  | some q =>
    simp only [withJournal_registry]
    cases q.validate with
    | error e => exact ⟨rfl, alike⟩
    | ok _ => exact ⟨rfl, alike.withRegistry (m.registry.search q).2⟩

omit [Journal J] [Journal K] in
theorem Alike.queryPage {m : Mediator J} {n : Mediator K} (alike : m.Alike n) (q : Option Query)
    (pageSize : Option Nat) : SameAnswer (m.queryPage q pageSize) (n.queryPage q pageSize) := by
  obtain ⟨result, m', journal, hm, hn⟩ := (alike.query q).exists_eq
  unfold Mediator.queryPage
  rw [hm, hn]
  have queried := alike_withJournal m' journal
  cases result with
  | error e => exact ⟨rfl, queried⟩
  | ok found => exact ⟨rfl, queried.withCursors _⟩

omit [Journal J] [Journal K] in
theorem Alike.queryNext {m : Mediator J} {n : Mediator K} (alike : m.Alike n) (cursor : String) :
    SameAnswer (m.queryNext cursor) (n.queryNext cursor) := by
  obtain ⟨journal, rfl⟩ := alike.exists_eq
  unfold Mediator.queryNext
  rw [withJournal_cursors]
  cases m.cursors.next cursor with
  | error e => exact ⟨rfl, alike⟩
  | ok turned => exact ⟨rfl, alike.withCursors turned.2⟩

omit [Journal J] [Journal K] in
theorem Alike.subscribe {m : Mediator J} {n : Mediator K} (alike : m.Alike n)
    (r : SubscribeRequest) : SameAnswer (m.subscribe r) (n.subscribe r) := by
  obtain ⟨journal, rfl⟩ := alike.exists_eq
  unfold Mediator.subscribe
  cases Callback.ofText r.callback with
  | error e => exact ⟨rfl, alike⟩
  | ok callback =>
    cases r.query with
    | none => exact ⟨rfl, alike⟩
    | some query =>
      simp only
      cases query.validate with
      | error e => exact ⟨rfl, alike⟩
      | ok _ => exact ⟨rfl, alike_withJournal _ journal⟩

omit [Journal J] [Journal K] in
theorem Alike.unsubscribe {m : Mediator J} {n : Mediator K} (alike : m.Alike n)
    (id : SubscriptionId) : SameAnswer (m.unsubscribe id) (n.unsubscribe id) := by
  obtain ⟨journal, rfl⟩ := alike.exists_eq
  unfold Mediator.unsubscribe
  rw [withJournal_subscriptions]
  rcases m.subscriptions.remove id with ⟨removed, subscriptions⟩
  cases removed with
  | none => exact ⟨rfl, alike⟩
  | some s =>
    have removed := alike.withSubscriptions subscriptions
    refine ⟨rfl, ?_⟩
    simp only
    split
    · exact removed.dropSubscriber s.owner
    · exact removed

theorem Alike.conclude {m : Mediator J} {n : Mediator K} (alike : m.Alike n) (now : Instant)
    (x : Expiry) (outcome : HandshakeOutcome) :
    (m.conclude now x outcome).Alike (n.conclude now x outcome) := by
  obtain ⟨journal, rfl⟩ := alike.exists_eq
  unfold Mediator.conclude
  rw [withJournal_leases]
  rcases m.leases.resolve now x outcome with ⟨resolution, leases⟩
  have resolved := alike.withLeases leases
  cases resolution with
  | renewed entry => exact resolved
  | stale => exact resolved
  | evict reason => exact (resolved.evict x.component).alike

theorem Alike.handleExpiry {m : Mediator J} {n : Mediator K} (alike : m.Alike n) (now : Instant)
    (x : Expiry) : (m.handleExpiry now x).Alike (n.handleExpiry now x) := by
  obtain ⟨journal, rfl⟩ := alike.exists_eq
  unfold Mediator.handleExpiry
  rw [withJournal_leases, withJournal_registry, withJournal_settings, withJournal_dispatcher]
  rcases m.leases.beginHandshake x with ⟨begun, leases⟩
  cases begun with
  | false => exact alike
  | true =>
    rcases m.registry.get x.component with ⟨e | found, registry⟩
    · exact ((alike.withRegistry registry).withLeases leases).conclude now x _
    · cases found with
      | none => exact (alike.withRegistry registry).withLeases _
      | some c => exact ((alike.withRegistry registry).withLeases leases).withDispatcher _

theorem Alike.handleCompletion {m : Mediator J} {n : Mediator K} (alike : m.Alike n)
    (now : Instant) (c : Completion) :
    (m.handleCompletion now c).Alike (n.handleCompletion now c) := by
  unfold Mediator.handleCompletion
  split
  · exact alike.conclude now _ _
  · exact alike

theorem Alike.reinstate {m : Mediator J} {n : Mediator K} (alike : m.Alike n) (now : Instant)
    (answers : List (Component × Bool)) :
    SameAnswer (m.reinstate now answers) (n.reinstate now answers) := by
  induction answers generalizing m n with
  | nil => exact ⟨rfl, alike⟩
  | cons answer rest ih =>
    obtain ⟨c, answered⟩ := answer
    cases answered with
    | false => exact ih (alike.forget c.id)
    | true =>
      obtain ⟨journal, rfl⟩ := alike.exists_eq
      unfold Mediator.reinstate
      rw [withJournal_registry, withJournal_leases]
      rcases m.registry.add c with ⟨e | previous, registry⟩
      · exact ⟨rfl, alike.withRegistry registry⟩
      · have more := ih ((alike.withRegistry registry).withLeases (m.leases.arm now c.id none).2)
        exact ⟨congrArg (Except.map (· + 1)) more.answer, more.alike⟩

/-- Services that differ in their journals alone answer alike, and differ in their journals alone
after it. -/
theorem Alike.perform {m : Mediator J} {n : Mediator K} (alike : m.Alike n) (now : Instant)
    {o : Operation} (served : o.readsJournal = false) :
    n.respond now o = m.respond now o ∧ (m.perform now o).Alike (n.perform now o) := by
  cases o with
  | register c lease =>
    obtain ⟨answer, after⟩ := alike.register now c lease
    exact ⟨congrArg Response.granted answer, after⟩
  | update id delta mode lease =>
    obtain ⟨answer, after⟩ := alike.update now id delta mode lease
    exact ⟨congrArg Response.updated answer, after⟩
  | renew id lease =>
    obtain ⟨answer, after⟩ := alike.renew now id lease
    exact ⟨congrArg Response.granted answer, after⟩
  | unregister id =>
    obtain ⟨answer, after⟩ := alike.unregister id
    exact ⟨congrArg Response.done answer, after⟩
  | evict id =>
    obtain ⟨answer, after⟩ := alike.evict id
    exact ⟨congrArg Response.done answer, after⟩
  | subscribe r =>
    obtain ⟨answer, after⟩ := alike.subscribe r
    exact ⟨congrArg Response.subscribed answer, after⟩
  | unsubscribe id =>
    obtain ⟨answer, after⟩ := alike.unsubscribe id
    exact ⟨congrArg Response.done answer, after⟩
  | query q =>
    obtain ⟨answer, after⟩ := alike.query q
    exact ⟨congrArg Response.found answer, after⟩
  | queryPage q pageSize =>
    obtain ⟨answer, after⟩ := alike.queryPage q pageSize
    exact ⟨congrArg Response.page answer, after⟩
  | queryNext cursor =>
    obtain ⟨answer, after⟩ := alike.queryNext cursor
    exact ⟨congrArg Response.page answer, after⟩
  | handleExpiry x => exact ⟨rfl, alike.handleExpiry now x⟩
  | handleCompletion c => exact ⟨rfl, alike.handleCompletion now c⟩
  | restore answers => cases served
  | reinstate answers =>
    obtain ⟨answer, after⟩ := alike.reinstate now answers
    exact ⟨congrArg Response.counted answer, after⟩
  | fire =>
    obtain ⟨journal, rfl⟩ := alike.exists_eq
    exact ⟨rfl, alike.withLeases (m.leases.fire now).2⟩
  | launch network =>
    obtain ⟨journal, rfl⟩ := alike.exists_eq
    exact ⟨rfl, alike.withDispatcher (m.dispatcher.launch network now).2⟩
  | land =>
    obtain ⟨journal, rfl⟩ := alike.exists_eq
    exact ⟨rfl, alike.withDispatcher (m.dispatcher.land now)⟩
  | receive =>
    obtain ⟨journal, rfl⟩ := alike.exists_eq
    refine ⟨rfl, ?_⟩
    unfold Mediator.perform
    simp only [withJournal_dispatcher]
    cases m.dispatcher.receive with
    | none => exact alike
    | some taken => exact alike.withDispatcher taken.2

/-- The journal is not seen: of two services that differ in their journals alone, of whatever kinds
these are and whichever of their writes fail, every operation of a history without a restart gives
the same, and after it they differ in their journals alone. -/
theorem journal_unseen {m : Mediator J} {n : Mediator K} (alike : m.Alike n)
    (history : List (Instant × Operation)) (served : ∀ o ∈ history, o.2.readsJournal = false) :
    n.responses history = m.responses history ∧ (m.after history).Alike (n.after history) := by
  induction history generalizing m n with
  | nil => exact ⟨rfl, alike⟩
  | cons o rest ih =>
    obtain ⟨response, after⟩ := alike.perform o.1 (served o List.mem_cons_self)
    obtain ⟨responses, later⟩ := ih after fun o' h => served o' (List.mem_cons_of_mem o h)
    exact ⟨congrArg₂ List.cons response responses, later⟩

/-- Whether the lamp comes and goes with a file that cannot be written, or without any journal. -/
theorem journal_unseen_fullDisk :
    let full : RegistrationLog := ⟨noon, ∅, { fails := fun _ => true }⟩
    let m := new {} full (fun _ => "") fun _ => default
    let n := new {} NoJournal.mk (fun _ => "") fun _ => default
    let history : List (Instant × Operation) :=
      [(⟨0⟩, .register { id := ⟨"lamp"⟩, kind := .widget } none), (⟨1⟩, .unregister ⟨"lamp"⟩)]
    m.Alike n ∧ (∀ o ∈ history, o.2.readsJournal = false) ∧
      n.responses history = m.responses history ∧ (m.after history).Alike (n.after history) ∧
      (m.after history).journal.disk.writes = 2 ∧ (m.after history).journal.disk.content = none := by
  intro full m n history
  have alike : m.Alike n := ⟨rfl, rfl, rfl, rfl, rfl, rfl, rfl, rfl, rfl⟩
  have served : ∀ o ∈ history, o.2.readsJournal = false := by decide
  obtain ⟨responses, after⟩ := journal_unseen alike history served
  exact ⟨alike, served, responses, after, by decide +kernel, by decide +kernel⟩

end Journaled

end Mediator

/-! ## In the surroundings of the service -/

namespace World

variable {J K : Type}

/-- The world with another journal. -/
def withJournal (w : World J) (journal : K) : World K :=
  { w with mediator := w.mediator.withJournal journal }

@[simp] theorem withJournal_mediator (w : World J) (journal : K) :
    (w.withJournal journal).mediator = w.mediator.withJournal journal := rfl

/-- Whether two worlds differ in the journals of their services alone. -/
structure Alike (w : World J) (v : World K) : Prop where
  now : v.now = w.now
  mediator : w.mediator.Alike v.mediator
  network : v.network = w.network
  running : v.running = w.running
  listening : v.listening = w.listening
  expiries : v.expiries = w.expiries
  sent : v.sent = w.sent

theorem Alike.exists_eq {w : World J} {v : World K} (alike : w.Alike v) :
    ∃ journal, v = w.withJournal journal := by
  obtain ⟨now, mediator, network, running, listening, expiries, sent⟩ := alike
  obtain ⟨journal, hmediator⟩ := mediator.exists_eq
  refine ⟨journal, ?_⟩
  cases v
  subst now hmediator network running listening expiries sent
  rfl

theorem Alike.withMediator {w : World J} {v : World K} (alike : w.Alike v) {m : Mediator J}
    {n : Mediator K} (mediators : m.Alike n) :
    Alike { w with mediator := m } { v with mediator := n } :=
  { alike with mediator := mediators }

theorem Alike.later {w : World J} {v : World K} (alike : w.Alike v) (now : Instant) :
    Alike { w with now } { v with now } :=
  { alike with now := rfl }

theorem alike_withJournal (w : World J) (journal : K) : w.Alike (w.withJournal journal) :=
  ⟨rfl, Mediator.alike_withJournal w.mediator journal, rfl, rfl, rfl, rfl, rfl⟩

theorem Alike.nextDue? {w : World J} {v : World K} (alike : w.Alike v) :
    v.nextDue? = w.nextDue? := by
  unfold World.nextDue?
  rw [alike.mediator.dispatcher, alike.mediator.leases]

variable [Journal J] [Journal K]

omit [Journal J] [Journal K] in
theorem rel_ite {α β : Type} {r : α → β → Prop} {p : Prop} [Decidable p] {a b : Option α}
    {a' b' : Option β} (yes : Option.Rel r a a') (no : Option.Rel r b b') :
    Option.Rel r (if p then a else b) (if p then a' else b') := by
  split
  · exact yes
  · exact no

/-- What is to be done next is the same, and the worlds still differ in their journals alone. -/
theorem Alike.step? {w : World J} {v : World K} (alike : w.Alike v) :
    Option.Rel World.Alike w.step? v.step? := by
  obtain ⟨journal, rfl⟩ := alike.exists_eq
  unfold World.step?
  simp only [withJournal_mediator, Mediator.withJournal_dispatcher, Mediator.withJournal_leases]
  have same (w' : World J) : Option.Rel World.Alike (some w') (some (w'.withJournal journal)) :=
    .some (alike_withJournal w' journal)
  refine rel_ite (same w.launch) (rel_ite (same w.land) (rel_ite (same w.fire) (rel_ite ?_ .none)))
  have hexpiries : (w.withJournal journal).expiries = w.expiries := rfl
  rw [hexpiries]
  cases w.expiries with
  | cons x expiries =>
    have handled := alike.withMediator (alike.mediator.handleExpiry w.now x)
    exact .some { handled with expiries := rfl }
  | nil =>
    cases w.mediator.dispatcher.receive with
    | none => exact .none
    | some taken =>
      have received := alike.mediator.withDispatcher taken.2
      have handled := alike.withMediator (received.handleCompletion w.now taken.1)
      exact .some { handled with expiries := rfl }

/-- The program's own runs leave worlds that differ in their journals alone. -/
theorem Alike.runWithin {w : World J} {v : World K} (alike : w.Alike v) (until_ : Instant)
    (steps : Nat) : (w.runWithin until_ steps).Alike (v.runWithin until_ steps) := by
  induction steps generalizing w v with
  | zero =>
    unfold World.runWithin
    rw [alike.now]
    exact alike.later _
  | succ steps ih =>
    have stepped := alike.step?
    unfold World.runWithin
    rw [alike.nextDue?]
    generalize w.step? = wNext at stepped ⊢
    generalize v.step? = vNext at stepped ⊢
    cases stepped with
    | some stepped => exact ih stepped
    | none =>
      cases w.nextDue? with
      | none => exact alike.later until_
      | some due =>
        simp only
        split
        · exact ih (alike.later due)
        · exact alike.later until_

/-- So the same messages are sent, at the same instants, and the same expiries and completions are
handled, whatever becomes of the journals. -/
theorem Alike.run {w : World J} {v : World K} (alike : w.Alike v) (until_ : Instant) :
    (w.run until_).Alike (v.run until_) :=
  alike.runWithin until_ patience

end World

end Rendezvous
