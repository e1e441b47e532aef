import Rendezvous.Proofs.Directory.Search
import Rendezvous.Proofs.Service.Operation
/-!
# The effects of operations

What an operation does to the service as a whole is one of a few things (`Mediator.Effect`), and
every operation does one of them (`Mediator.perform_effect`). Four operations can remove a
component: it is unregistered or evicted, or the end of its lease is handled or answered. Whatever
the reason, either nobody goes or one component departs (`Mediator.Parts`), and what a departure
does is `Mediator.depart_eq`.

On the directory every operation is a list of changes (`Mediator.Effect.directory`), so what changes
of a directory keep, histories of the service keep too. The leases only evolve
(`Mediator.Effect.leases`), and in the journal nothing happens but that components are noted and
struck out (`Mediator.Effect.journal`).
-/

namespace Rendezvous

namespace Dispatcher

/-- Whether a dispatcher takes on nothing more than a question to a component whose lease ends. -/
def Asks (d d' : Dispatcher) : Prop :=
  d' = d ∨ ∃ id generation endpoint message wait,
    d' = d.dispatch ⟨⟨id, .leaseEnd generation⟩, endpoint, message, wait⟩

theorem foldl_dispatch (d : Dispatcher) (errands : List Errand) :
    errands.foldl dispatch d = { d with waiting := d.waiting ++ errands } := by
  induction errands generalizing d with
  | nil => simp
  | cons e rest ih =>
    rw [List.foldl_cons, ih]
    simp [dispatch]

end Dispatcher

namespace Mediator

variable {J : Type}

theorem notify_eq (m : Mediator J) (callback : Callback) (c : Component) :
    m.notify callback c = { m with dispatcher := { m.dispatcher with
      waiting := m.dispatcher.waiting ++ (m.subscriptions.matching callback c).map
        (Notification.errand m.settings.dispatch.requestTimeout c) } } := by
  unfold notify
  simp only [Dispatcher.foldl_dispatch]

/-- Whether a component is registered before, and is not after. -/
def departed (before after : Mediator J) (id : ComponentId) : Bool :=
  before.directory.contains id && !after.directory.contains id

theorem departed_of_stays {m m' : Mediator J}
    (stays : ∀ id, m.directory.contains id = true → m'.directory.contains id = true)
    (id : ComponentId) : m.departed m' id = false := by
  unfold departed
  cases h : m.directory.contains id with
  | false => rfl
  | true => rw [stays id h]; rfl

theorem stays_of_same {m m' : Mediator J} (same : m'.directory = m.directory) (id : ComponentId)
    (known : m.directory.contains id = true) : m'.directory.contains id = true := by
  rw [same]
  exact known

/-- Who departs is known from the directories. -/
theorem departed_of_remove {m m' : Mediator J} {c : Component}
    (known : m.directory.get? c.id = some c)
    (gone : m'.directory = (m.directory.remove c.id).2) (id : ComponentId) :
    m.departed m' id = decide (id = c.id) := by
  unfold departed
  rw [gone, Directory.contains_eq_isSome, Directory.contains_eq_isSome, Directory.get?_remove]
  by_cases hid : id = c.id
  · rw [hid, known]
    simp
  · simp [hid]

section Journaled

variable [Journal J]

/-- A departure is made known, ends the subscriptions of the component, and takes its name out of
the subscribers and out of the journal. -/
theorem depart_eq (m : Mediator J) (c : Component) :
    m.depart c = { m with
      dispatcher := (m.notify .removedComponent c).dispatcher
      subscriptions := (m.subscriptions.removeOwnedBy c.id).2
      self := if (m.subscriptions.ownedBy c.id).isEmpty then m.self
        else (m.dropSubscriber c.id).self
      journal := (Journal.forget m.journal c.id).2 } := by
  have hgone : (m.subscriptions.removeOwnedBy c.id).1 = m.subscriptions.ownedBy c.id := rfl
  unfold depart
  simp only [notify_eq, hgone]
  split <;> rfl

/-- What an operation that can remove a component makes of the service. -/
inductive Parts (m : Mediator J) : Mediator J → Prop
  /-- Nobody goes. -/
  | none {registry : Registry} {leases : LeaseTable} {dispatcher : Dispatcher}
      (same : registry.directory = m.directory) (asks : m.dispatcher.Asks dispatcher)
      (evolves : m.leases.Evolves leases) : Parts m { m with registry, leases, dispatcher }
  | one {registry : Registry} {leases : LeaseTable} {c : Component}
      (known : m.directory.get? c.id = some c)
      (gone : registry.directory = (m.directory.remove c.id).2)
      (evolves : m.leases.Evolves leases) : Parts m ({ m with registry, leases }.depart c)

/-- What was done to the leases and the registry before makes no difference. -/
theorem Parts.trans {m m' : Mediator J} (registry : Registry) (leases : LeaseTable)
    (same : registry.directory = m.directory) (evolves : m.leases.Evolves leases)
    (h : Parts { m with registry, leases } m') : Parts m m' := by
  cases h with
  | none same' asks evolves' => exact .none (same'.trans same) asks (evolves.trans evolves')
  | one known gone evolves' =>
    have hdirectory : directory { m with registry, leases } = m.directory := same
    rw [hdirectory] at known gone
    exact .one known gone (evolves.trans evolves')

theorem unregister_parts (m : Mediator J) (named : m.directory.Named) (id : ComponentId) :
    Parts m (m.unregister id).2 := by
  rcases m.unregister_cases id with ⟨e, h⟩ | ⟨c, hget, h⟩
  · rw [h]
    exact .none rfl (.inl rfl) .refl
  · obtain rfl : c.id = id := named id c hget
    rw [h]
    exact .one hget rfl (.cancel c.id .refl)

theorem evict_parts (m : Mediator J) (named : m.directory.Named) (id : ComponentId) :
    Parts m (m.evict id).2 := by
  cases hlease : (m.leases.get? id).isSome with
  | true =>
    rw [evict_of_leased hlease]
    exact .none rfl (.inl rfl) .refl
  | false =>
    have unleased : m.leases.get? id = none := by simpa using hlease
    rcases evict_cases unleased with ⟨e, -, h⟩ | ⟨-, h⟩ | ⟨c, hget, h⟩
    · rw [h]
      exact .none rfl (.inl rfl) .refl
    · rw [h]
      exact .none rfl (.inl rfl) .refl
    · obtain rfl : c.id = id := named id c hget
      rw [h]
      exact .one hget rfl .refl

theorem conclude_parts (now : Instant) (m : Mediator J) (named : m.directory.Named) (x : Expiry)
    (outcome : HandshakeOutcome) : Parts m (m.conclude now x outcome) := by
  have evolves := LeaseTable.evolves_resolve now m.leases x outcome
  unfold conclude
  simp only
  split
  · exact .none rfl (.inl rfl) evolves
  · exact .none rfl (.inl rfl) evolves
  · exact Parts.trans m.registry (m.leases.resolve now x outcome).2 rfl evolves
      (evict_parts { m with leases := (m.leases.resolve now x outcome).2 } named x.component)

theorem handleExpiry_parts (now : Instant) (m : Mediator J) (named : m.directory.Named)
    (x : Expiry) : Parts m (m.handleExpiry now x) := by
  unfold handleExpiry
  have evolves : m.leases.Evolves (m.leases.beginHandshake x).2 := .beginHandshake x .refl
  rcases hbegin : m.leases.beginHandshake x with ⟨begun, leases⟩
  rw [hbegin] at evolves
  cases begun with
  | false => exact .none rfl (.inl rfl) .refl
  | true =>
    rcases m.registry.get_cases x.component with ⟨e, -, hget⟩ | hget
    · rw [hget]
      exact Parts.trans (m.registry.after m.directory) leases rfl evolves
        (conclude_parts now { m with registry := m.registry.after m.directory, leases } named x _)
    · rw [hget]
      cases m.registry.directory.get? x.component with
      | none => exact .none rfl (.inl rfl) (.cancel x.component evolves)
      | some c => exact .none rfl (.inr ⟨_, _, _, _, _, rfl⟩) evolves

theorem handleCompletion_parts (now : Instant) (m : Mediator J) (named : m.directory.Named)
    (c : Completion) : Parts m (m.handleCompletion now c) := by
  unfold handleCompletion
  split
  · exact conclude_parts now m named _ _
  · exact .none rfl (.inl rfl) .refl

/-! ## The other operations -/

/-- The journal after components are struck out of it. -/
def strike (journal : J) (ids : List ComponentId) : J :=
  ids.foldl (fun journal id => (Journal.forget journal id).2) journal

/-- What is registered again is inserted and gets a lease, what is not is struck out of the journal,
and nothing else changes. -/
theorem reinstate_cases (now : Instant) (m : Mediator J) (answers : List (Component × Bool)) :
    ∃ (cs : List Component) (registry : Registry) (leases : LeaseTable) (ids : List ComponentId),
      (∀ c ∈ cs, (c, true) ∈ answers) ∧
      registry.directory = (cs.map .insert).foldl Directory.apply m.directory ∧
      m.leases.Evolves leases ∧
      (m.reinstate now answers).2 =
        { m with registry, leases, journal := strike m.journal ids } := by
  induction answers generalizing m with
  | nil => exact ⟨[], m.registry, m.leases, [], by simp, rfl, .refl, rfl⟩
  | cons answer rest ih =>
    obtain ⟨c, answered⟩ := answer
    cases answered with
    | false =>
      obtain ⟨cs, registry, leases, ids, hcs, hdirectory, evolves, h⟩ := ih (m.forget c.id)
      exact ⟨cs, registry, leases, c.id :: ids, fun c hc => List.mem_cons_of_mem _ (hcs c hc),
        hdirectory, evolves, h⟩
    | true =>
      unfold reinstate
      rcases m.registry.add_cases c with ⟨e, hadd⟩ | ⟨previous, d, hop, hadd⟩
      · rw [hadd]
        exact ⟨[], m.registry.after m.directory, m.leases, [], by simp, rfl, .refl, rfl⟩
      · rw [hadd]
        obtain ⟨cs, registry, leases, ids, hcs, hdirectory, evolves, h⟩ :=
          ih { m with registry := m.registry.after d, leases := (m.leases.arm now c.id none).2 }
        have armed : m.leases.Evolves (m.leases.arm now c.id none).2 := .arm now c.id none .refl
        refine ⟨c :: cs, registry, leases, ids, ?_, ?_, armed.trans evolves, h⟩
        · intro c' hc'
          rcases List.mem_cons.mp hc' with rfl | hc'
          · exact List.mem_cons_self ..
          · exact List.mem_cons_of_mem _ (hcs c' hc')
        · have happly : m.directory.apply (.insert c) = d := by
            have hop' : m.directory.insert c = .ok (previous, d) := hop
            exact Directory.apply_insert hop'
          rw [hdirectory, List.map_cons, List.foldl_cons, happly]
          rfl

/-- Whether an operation may insert a component into the directory. -/
def Operation.Inserts (m : Mediator J) (c : Component) : Operation → Prop
  | .register c' _ => c = c'
  | .reinstate answers => (c, true) ∈ answers
  | .restore _ => ∃ cs, m.journaled = .ok cs ∧ c ∈ cs
  | _ => False

/-- What an operation is about. -/
inductive Concern
  | components
  | subscriptions
  /-- Pages of results. -/
  | pages
  /-- Requests that are on their way. -/
  | requests
deriving DecidableEq

/-- What an operation is about. -/
def Operation.concern : Operation → Concern
  | .subscribe _ | .unsubscribe _ => .subscriptions
  | .queryPage _ _ | .queryNext _ => .pages
  | .launch _ | .land | .receive => .requests
  | _ => .components

/-- What an operation can do to the service. -/
inductive Effect (now : Instant) (m : Mediator J) : Operation → Mediator J → Prop
  /-- No component comes, changes or goes. -/
  | none {o : Operation} {registry : Registry} {leases : LeaseTable} {dispatcher : Dispatcher}
      (same : registry.directory = m.directory) (asks : m.dispatcher.Asks dispatcher)
      (evolves : m.leases.Evolves leases) : Effect now m o { m with registry, leases, dispatcher }
  | registered {c : Component} {lease : Option Lease} {d : Directory}
      {previous : Option Component} (inserted : m.directory.insert c = .ok (previous, d)) :
      Effect now m (.register c lease)
        (({ m with registry := m.registry.after d
                   leases := (m.leases.arm now c.id lease).2 }.record c).notify .newComponent c)
  | updated {id : ComponentId} {delta : Attributes} {mode : UpdateMode} {lease : Option Lease}
      {updated : Component} {d : Directory} {leases : LeaseTable}
      (changed : m.directory.update id delta mode = .ok (updated, d))
      (evolves : m.leases.Evolves leases) : Effect now m (.update id delta mode lease)
        (({ m with registry := m.registry.after d, leases }.record updated).notify
          .updatedComponent updated)
  | departed {o : Operation} {registry : Registry} {leases : LeaseTable} {c : Component}
      (known : m.directory.get? c.id = some c)
      (gone : registry.directory = (m.directory.remove c.id).2)
      (evolves : m.leases.Evolves leases) : Effect now m o ({ m with registry, leases }.depart c)
  | reinstated {o : Operation} {cs : List Component} {registry : Registry} {leases : LeaseTable}
      {ids : List ComponentId} (inserts : ∀ c ∈ cs, o.Inserts m c)
      (inserted : registry.directory = (cs.map .insert).foldl Directory.apply m.directory)
      (evolves : m.leases.Evolves leases) :
      Effect now m o { m with registry, leases, journal := strike m.journal ids }
  | subscriptions {o : Operation} {self : Component} {subscriptions : SubscriptionTable}
      {subscribed : Nat} (h : o.concern = .subscriptions) :
      Effect now m o { m with self, subscriptions, subscribed }
  | pages {o : Operation} {registry : Registry} {cursors : CursorTable}
      (h : o.concern = .pages) (same : registry.directory = m.directory) :
      Effect now m o { m with registry, cursors }
  | requests {o : Operation} {dispatcher : Dispatcher} (h : o.concern = .requests) :
      Effect now m o { m with dispatcher }

theorem Parts.effect {m m' : Mediator J} (h : Parts m m') (now : Instant) (o : Operation) :
    Effect now m o m' := by
  cases h with
  | none same asks evolves => exact .none same asks evolves
  | one known gone evolves => exact .departed known gone evolves

omit [Journal J] in
theorem queryPage_cursors (m : Mediator J) (q : Option Query) (pageSize : Option Nat) :
    ∃ registry cursors, registry.directory = m.directory ∧
      (m.queryPage q pageSize).2 = { m with registry, cursors } := by
  have queried : ∃ registry : Registry, registry.directory = m.directory ∧
      (m.query q).2 = { m with registry } := by
    rcases m.query_cases q with h | h
    · exact ⟨m.registry, rfl, h⟩
    · exact ⟨m.registry.after m.directory, rfl, h⟩
  obtain ⟨registry, hdirectory, hquery⟩ := queried
  rcases m.queryPage_cases q pageSize with h | ⟨cursors, h⟩
  · exact ⟨registry, m.cursors, hdirectory, by rw [h, hquery]⟩
  · exact ⟨registry, cursors, hdirectory, by rw [h, hquery]⟩

/-- Every operation has one of the effects. -/
theorem perform_effect (now : Instant) (m : Mediator J) (named : m.directory.Named)
    (o : Operation) : Effect now m o (m.perform now o) := by
  have same : ∀ {o : Operation}, Effect now m o m := .none rfl (.inl rfl) .refl
  have called : ∀ {o : Operation} {leases : LeaseTable}, m.leases.Evolves leases →
      Effect now m o { m with registry := m.registry.after m.directory, leases } :=
    .none rfl (.inl rfl)
  cases o with
  | register c lease =>
    change Effect now m _ (m.register now c lease).2
    rcases m.register_cases now c lease with ⟨e, h⟩ | ⟨previous, d, hop, h⟩
    · rw [h]
      exact called .refl
    · rw [h]
      exact .registered hop
  | update id delta mode lease =>
    change Effect now m _ (m.update now id delta mode lease).2
    rcases m.update_cases now id delta mode lease with ⟨e, h⟩ | ⟨updated, d, hop, h⟩
    · rw [h]
      exact called .refl
    · rw [h]
      refine .updated hop ?_
      cases lease with
      | none => exact .refl
      | some l => exact .arm now id (some l) .refl
  | renew id lease =>
    change Effect now m _ (m.renew now id lease).2
    rcases m.renew_cases now id lease with ⟨e, h⟩ | ⟨-, h⟩
    · rw [h]
      exact called .refl
    · rw [h]
      exact called (.arm now id (some lease) .refl)
  | unregister id => exact (m.unregister_parts named id).effect now _
  | evict id => exact (m.evict_parts named id).effect now _
  | handleExpiry x => exact (m.handleExpiry_parts now named x).effect now _
  | handleCompletion c => exact (m.handleCompletion_parts now named c).effect now _
  | subscribe r =>
    change Effect now m _ (m.subscribe r).2
    unfold subscribe
    repeat' split
    all_goals exact .subscriptions rfl
  | unsubscribe id =>
    change Effect now m _ (m.unsubscribe id).2
    unfold unsubscribe
    split
    · exact same
    · simp only
      split
      · exact .subscriptions rfl
      · exact .subscriptions rfl
  | query q =>
    change Effect now m _ (m.query q).2
    rcases m.query_cases q with h | h
    · rw [h]
      exact same
    · rw [h]
      exact called .refl
  | queryPage q pageSize =>
    change Effect now m _ (m.queryPage q pageSize).2
    obtain ⟨registry, cursors, hdirectory, h⟩ := m.queryPage_cursors q pageSize
    rw [h]
    exact .pages rfl hdirectory
  | queryNext cursor =>
    change Effect now m _ (m.queryNext cursor).2
    obtain ⟨cursors, h⟩ := m.queryNext_cases cursor
    rw [h]
    exact .pages rfl rfl
  | reinstate answers =>
    change Effect now m _ (m.reinstate now answers).2
    obtain ⟨cs, registry, leases, ids, hcs, hdirectory, evolves, h⟩ :=
      m.reinstate_cases now answers
    rw [h]
    exact .reinstated hcs hdirectory evolves
  | restore answers =>
    change Effect now m _ (m.restore now answers).2
    rcases m.restore_cases now answers with h | ⟨loaded, hloaded, h⟩
    · rw [h]
      exact same
    · obtain ⟨cs, registry, leases, ids, hcs, hdirectory, evolves, h'⟩ :=
        m.reinstate_cases now (loaded.map fun c => (c, answers c))
      rw [h, h']
      refine .reinstated (fun c hc => ?_) hdirectory evolves
      obtain ⟨c', hmem, hc'⟩ := List.mem_map.mp (hcs c hc)
      obtain rfl : c' = c := congrArg Prod.fst hc'
      exact ⟨loaded, hloaded, hmem⟩
  | fire => exact .none rfl (.inl rfl) (.fire now .refl)
  | launch network => exact .requests rfl
  | land => exact .requests rfl
  | receive =>
    unfold perform
    cases m.dispatcher.receive with
    | none => exact same
    | some taken => exact .requests rfl

/-! ## What is kept by every effect -/

theorem Effect.settings {now : Instant} {m m' : Mediator J} {o : Operation}
    (h : Effect now m o m') : m'.settings = m.settings := by
  cases h with
  | departed => rw [depart_eq]
  | _ => rfl

theorem Effect.leases {now : Instant} {m m' : Mediator J} {o : Operation}
    (h : Effect now m o m') : m.leases.Evolves m'.leases := by
  cases h with
  | none _ _ evolves => exact evolves
  | @registered c lease _ _ _ => exact .arm now c.id lease .refl
  | updated _ evolves => exact evolves
  | departed _ _ evolves =>
    rw [depart_eq]
    exact evolves
  | reinstated _ _ evolves => exact evolves
  | _ => exact .refl

theorem Effect.cursors {now : Instant} {m m' : Mediator J} {o : Operation}
    (h : Effect now m o m') (ho : o.concern ≠ .pages) : m'.cursors = m.cursors := by
  cases h with
  | departed => rw [depart_eq]
  | pages hconcern => exact absurd hconcern ho
  | _ => rfl

/-- What noting and striking out keep in a journal, every operation keeps there. -/
theorem Effect.journal {now : Instant} {m m' : Mediator J} {o : Operation} {Kept : J → Prop}
    (h : Effect now m o m') (record : ∀ j c, Kept j → Kept (Journal.record j c).2)
    (forget : ∀ j id, Kept j → Kept (Journal.forget j id).2) (kept : Kept m.journal) :
    Kept m'.journal := by
  cases h with
  | @registered c => exact record m.journal c kept
  | @updated _ _ _ _ updated => exact record m.journal updated kept
  | @departed _ _ _ c =>
    rw [depart_eq]
    exact forget m.journal c.id kept
  | @reinstated _ _ _ _ ids =>
    show Kept (strike m.journal ids)
    generalize m.journal = j at kept
    induction ids generalizing j with
    | nil => exact kept
    | cons id rest ih => exact ih _ (forget j id kept)
  | _ => exact kept

/-! ## The directory through a history -/

/-- On the directory every operation is a list of changes. -/
theorem Effect.directory {now : Instant} {m m' : Mediator J} {o : Operation}
    (h : Effect now m o m') :
    ∃ changes : List Directory.Change,
      m'.directory = changes.foldl Directory.apply m.directory ∧
        ∀ c, .insert c ∈ changes → o.Inserts m c := by
  cases h with
  | none same _ => exact ⟨[], same, by simp⟩
  | registered inserted =>
    refine ⟨[.insert _], (Directory.apply_insert inserted).symm, fun c hc => ?_⟩
    simpa [Operation.Inserts] using hc
  | updated changed => exact ⟨[.update _ _ _], (Directory.apply_update changed).symm, by simp⟩
  | @departed _ _ _ c known gone =>
    refine ⟨[.remove c.id], ?_, by simp⟩
    rw [depart_eq]
    exact gone
  | @reinstated _ cs _ _ _ inserts inserted =>
    exact ⟨cs.map .insert, inserted, fun c hc => inserts c (by simpa using hc)⟩
  | subscriptions => exact ⟨[], rfl, by simp⟩
  | pages _ same => exact ⟨[], same, by simp⟩
  | requests => exact ⟨[], rfl, by simp⟩

theorem named_perform {m : Mediator J} (named : m.directory.Named) (now : Instant)
    (o : Operation) : (m.perform now o).directory.Named := by
  obtain ⟨changes, h, -⟩ := (m.perform_effect now named o).directory
  rw [h]
  exact named.applyAll changes

theorem named_after {m : Mediator J} (named : m.directory.Named)
    (history : List (Instant × Operation)) : (m.after history).directory.Named := by
  induction history generalizing m with
  | nil => exact named
  | cons o rest ih => exact ih (named_perform named o.1 o.2)

theorem settings_after {m : Mediator J} (named : m.directory.Named)
    (history : List (Instant × Operation)) : (m.after history).settings = m.settings := by
  induction history generalizing m with
  | nil => rfl
  | cons o rest ih =>
    exact (ih (named_perform named o.1 o.2)).trans (m.perform_effect o.1 named o.2).settings

/-- Whether the attributes of all components that a history inserts stand under their names. -/
def KeyedAlong (m : Mediator J) : List (Instant × Operation) → Prop
  | [] => True
  | o :: rest => (∀ c, o.2.Inserts m c → c.Keyed) ∧ (m.perform o.1 o.2).KeyedAlong rest

theorem indexed_perform {m : Mediator J} (indexed : m.directory.Indexed) (now : Instant)
    {o : Operation} (keyed : ∀ c, o.Inserts m c → c.Keyed) :
    (m.perform now o).directory.Indexed := by
  obtain ⟨changes, h, hinserts⟩ := (m.perform_effect now indexed.named o).directory
  rw [h]
  exact indexed.applyAll fun c hc => keyed c (hinserts c hc)

theorem keyedAlong_append {m : Mediator J} {history later : List (Instant × Operation)} :
    m.KeyedAlong (history ++ later) ↔
      m.KeyedAlong history ∧ (m.after history).KeyedAlong later := by
  induction history generalizing m with
  | nil => exact (iff_of_eq (true_and _)).symm
  | cons o rest ih => exact (and_congr_right fun _ => ih).trans and_assoc.symm

/-- The index stays that of the registered components through every history. -/
theorem KeyedAlong.indexed {m : Mediator J} (indexed : m.directory.Indexed)
    {history : List (Instant × Operation)} (keyed : m.KeyedAlong history) :
    (m.after history).directory.Indexed := by
  induction history generalizing m with
  | nil => exact indexed
  | cons o rest ih => exact ih (indexed_perform indexed o.1 keyed.1) keyed.2

end Journaled

end Mediator

end Rendezvous
