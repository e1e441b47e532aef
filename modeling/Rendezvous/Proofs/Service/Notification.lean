import Rendezvous.Proofs.Service.Effect
/-!
# Who is notified

An operation makes known at most one thing: that a component has come, has changed, or has gone
(`Mediator.event`). The notifications that it hands to the dispatcher are those of the subscriptions
that are for this and whose query holds of the component, in the order of the table, and an
operation that makes nothing known hands over none (`Mediator.announces_perform`). That a query
holds of the component is the same as that a search finds it: where it has come or changed, a search
afterwards, where it has gone, a search before.
-/

namespace Rendezvous

namespace Mediator

variable {J : Type}

/-- The notifications of an event, written out. -/
theorem notify_dispatcher (m : Mediator J) (callback : Callback) (c : Component) :
    (m.notify callback c).dispatcher = { m.dispatcher with
      waiting := m.dispatcher.waiting ++
        (m.subscriptions.list.filter fun s =>
          s.callback = callback ∧ s.query.verdict c = .holds).map fun s =>
            { key := ⟨s.owner, .notification s.id⟩
              endpoint := s.target
              message := Notification.toNode
                ⟨s.id, callback, if s.full then .full c else .basic c.summary⟩
              wait := m.settings.dispatch.requestTimeout } } := by
  rw [notify_eq]
  refine congrArg (fun errands => { m.dispatcher with
    waiting := m.dispatcher.waiting ++ errands }) (List.map_congr_left fun s hs => ?_)
  have hfires : s.callback = callback ∧ s.query.verdict c = .holds := by
    simpa [Subscription.fires] using (List.mem_filter.mp hs).2
  rw [Notification.errand, Notification.of, hfires.1]

/-- Nobody is found to have departed where nobody goes. -/
theorem find?_departed_of_stays {m m' : Mediator J}
    (stays : ∀ id, m.directory.contains id = true → m'.directory.contains id = true) :
    (m.directory.list.find? fun c => m.departed m' c.id) = none := by
  rw [List.find?_eq_none]
  intro c _
  rw [departed_of_stays stays]
  exact Bool.false_ne_true

theorem find?_departed_of_remove {m m' : Mediator J} {c : Component} (named : m.directory.Named)
    (known : m.directory.get? c.id = some c)
    (gone : m'.directory = (m.directory.remove c.id).2) :
    (m.directory.list.find? fun c' => m.departed m' c'.id) = some c := by
  have hdeparted : ∀ id, m.departed m' id = decide (id = c.id) := departed_of_remove known gone
  simp only [hdeparted]
  cases hfind : m.directory.list.find? fun c' => decide (c'.id = c.id) with
  | none =>
    have hnone := List.find?_eq_none.mp hfind c (SortedMap.mem_values.mpr ⟨c.id, known⟩)
    simp at hnone
  | some c' =>
    obtain ⟨id, hid⟩ := SortedMap.mem_values.mp (List.mem_of_find?_eq_some hfind)
    have hsame : c'.id = c.id := by simpa using List.find?_some hfind
    have hstored : m.directory.get? c'.id = some c' := by
      rw [named id c' hid]
      exact hid
    rw [hsame, known] at hstored
    exact hstored.symm

/-- Whether an operation hands to the dispatcher the notifications of an event, and the component is
stored afterwards or, where it has gone, was stored before. Without an event there is at most a
question to a component whose lease ends. -/
def Announces (m : Mediator J) (o : Operation) (m' : Mediator J) :
    Option (Callback × Component) → Prop
  | some (callback, c) =>
    m'.dispatcher = (m.notify callback c).dispatcher ∧
      (if callback = .removedComponent then m else m').directory.get? c.id = some c
  | none => o.concern ≠ .requests → m.dispatcher.Asks m'.dispatcher

section Journaled

variable [Journal J]

/-- What an operation makes known, if anything: what it registered, what an update made of a
component, or which component departed. -/
def event (now : Instant) (m : Mediator J) (o : Operation) : Option (Callback × Component) :=
  match o with
  | .register c lease =>
    if (m.register now c lease).1.isOk then some (.newComponent, c) else none
  | .update id delta mode lease =>
    if (m.update now id delta mode lease).1.isOk then
      ((m.perform now o).directory.get? id).map fun c => (.updatedComponent, c)
    else none
  | _ =>
    (m.directory.list.find? fun c => m.departed (m.perform now o) c.id).map fun c =>
      (.removedComponent, c)

theorem event_register (now : Instant) (m : Mediator J) (c : Component) (lease : Option Lease) :
    m.event now (.register c lease) =
      if (m.register now c lease).1.isOk then some (.newComponent, c) else none := rfl

theorem event_update (now : Instant) (m : Mediator J) (id : ComponentId) (delta : Attributes)
    (mode : UpdateMode) (lease : Option Lease) :
    m.event now (.update id delta mode lease) =
      if (m.update now id delta mode lease).1.isOk then
        ((m.update now id delta mode lease).2.directory.get? id).map fun c => (.updatedComponent, c)
      else none := rfl

/-- Operations other than registrations and updates make known who departs. -/
theorem Effect.announces {now : Instant} {m m' : Mediator J} {o : Operation}
    (effect : Effect now m o m') (named : m.directory.Named)
    (unregistering : ∀ c lease, o ≠ .register c lease)
    (unchanging : ∀ id delta mode lease, o ≠ .update id delta mode lease) :
    m.Announces o m' ((m.directory.list.find? fun c => m.departed m' c.id).map fun c =>
      (.removedComponent, c)) := by
  have quiet : ∀ {m' : Mediator J},
      (∀ id, m.directory.contains id = true → m'.directory.contains id = true) →
      (o.concern ≠ .requests → m.dispatcher.Asks m'.dispatcher) →
      m.Announces o m' ((m.directory.list.find? fun c => m.departed m' c.id).map fun c =>
        (.removedComponent, c)) := by
    intro m' stays asks
    rw [find?_departed_of_stays stays]
    exact asks
  cases effect with
  | none same asks =>
    exact quiet (stays_of_same same) fun _ => asks
  | registered => exact absurd rfl (unregistering _ _)
  | updated => exact absurd rfl (unchanging _ _ _ _)
  | @departed _ registry leases c known gone =>
    have hdirectory : (depart { m with registry, leases } c).directory =
        (m.directory.remove c.id).2 := by
      rw [depart_eq]
      exact gone
    rw [find?_departed_of_remove named known hdirectory]
    refine ⟨?_, known⟩
    rw [depart_eq]
    rfl
  | @reinstated _ cs registry leases ids _ inserted =>
    refine quiet (fun id hid => ?_) fun _ => .inl rfl
    show registry.directory.contains id = true
    rw [inserted]
    exact Directory.contains_insertAll hid cs
  | subscriptions => exact quiet (fun _ hid => hid) fun _ => .inl rfl
  | pages _ same => exact quiet (stays_of_same same) fun _ => .inl rfl
  | requests hconcern => exact quiet (fun _ hid => hid) fun h => absurd hconcern h

/-- Every operation notifies of what it makes known. -/
theorem announces_perform {m : Mediator J} (named : m.directory.Named) (now : Instant)
    (o : Operation) : m.Announces o (m.perform now o) (m.event now o) := by
  cases o with
  | register c lease =>
    have hperform : m.perform now (.register c lease) = (m.register now c lease).2 := rfl
    rw [hperform, event_register]
    rcases m.register_cases now c lease with ⟨e, h⟩ | ⟨previous, d, inserted, h⟩
    · rw [h]
      show m.Announces _ _ none
      exact fun _ => .inl rfl
    · rw [h]
      show m.Announces _ _ (some (.newComponent, c))
      refine ⟨rfl, ?_⟩
      show d.get? c.id = some c
      rw [Directory.get?_insert inserted, if_pos rfl]
  | update id delta mode lease =>
    have hperform : m.perform now (.update id delta mode lease) =
        (m.update now id delta mode lease).2 := rfl
    rw [hperform, event_update]
    rcases m.update_cases now id delta mode lease with ⟨e, h⟩ | ⟨updated, d, changed, h⟩
    · rw [h]
      show m.Announces _ _ none
      exact fun _ => .inl rfl
    · have stored : d.get? id = some updated := by
        rw [Directory.get?_update named changed, if_pos rfl]
      have hid : updated.id = id := named.update changed id updated stored
      rw [h]
      show m.Announces _ _ ((d.get? id).map _)
      rw [stored]
      refine ⟨rfl, ?_⟩
      show d.get? updated.id = some updated
      rw [hid]
      exact stored
  | _ =>
    exact (m.perform_effect now named _).announces named (fun _ _ h => by cases h)
      (fun _ _ _ _ h => by cases h)

/-- What an operation is to make known and of which component, if it succeeds. -/
def Operation.intent : Operation → Option (Callback × ComponentId)
  | .register c _ => some (.newComponent, c.id)
  | .update id _ _ _ => some (.updatedComponent, id)
  | .unregister id => some (.removedComponent, id)
  | _ => none

/-- Whether an operation answers with an error. -/
def fails (now : Instant) (m : Mediator J) : Operation → Bool
  | .register c lease => !(m.register now c lease).1.isOk
  | .update id delta mode lease => !(m.update now id delta mode lease).1.isOk
  | .renew id lease => !(m.renew now id lease).1.isOk
  | .unregister id => !(m.unregister id).1.isOk
  | .evict id => !(m.evict id).1.isOk
  | .subscribe r => !(m.subscribe r).1.isOk
  | .unsubscribe id => !(m.unsubscribe id).1.isOk
  | .query q => !(m.query q).1.isOk
  | .queryPage q pageSize => !(m.queryPage q pageSize).1.isOk
  | .queryNext cursor => !(m.queryNext cursor).1.isOk
  | .restore answers => !(m.restore now answers).1.isOk
  | .reinstate answers => !(m.reinstate now answers).1.isOk
  | _ => false

/-- An operation that is to make something known and succeeds makes it known. -/
theorem event_of_intent {m : Mediator J} (named : m.directory.Named) {now : Instant}
    {o : Operation} {callback : Callback} {id : ComponentId}
    (intent : o.intent = some (callback, id)) (succeeds : m.fails now o = false) :
    ∃ c, c.id = id ∧ m.event now o = some (callback, c) := by
  cases o with
  | register c lease =>
    cases intent
    simp only [fails, Bool.not_eq_false'] at succeeds
    exact ⟨c, rfl, by rw [event_register, if_pos succeeds]⟩
  | update id' delta mode lease =>
    cases intent
    simp only [fails, Bool.not_eq_false'] at succeeds
    rcases m.update_cases now id delta mode lease with ⟨e, h⟩ | ⟨updated, d, changed, h⟩
    · rw [h] at succeeds
      cases succeeds
    · have stored : d.get? id = some updated := by
        rw [Directory.get?_update named changed, if_pos rfl]
      refine ⟨updated, named.update changed id updated stored, ?_⟩
      rw [event_update, if_pos succeeds, h]
      show (d.get? id).map _ = _
      rw [stored]
      rfl
  | unregister id' =>
    cases intent
    simp only [fails, Bool.not_eq_false'] at succeeds
    rcases m.unregister_cases id with ⟨e, h⟩ | ⟨c, known, h⟩
    · rw [h] at succeeds
      cases succeeds
    · obtain rfl : c.id = id := named id c known
      refine ⟨c, rfl, ?_⟩
      have gone : (m.unregister c.id).2.directory = (m.directory.remove c.id).2 := by
        rw [h, depart_eq]
        rfl
      show (m.directory.list.find? fun c' => m.departed (m.unregister c.id).2 c'.id).map _ = _
      rw [find?_departed_of_remove named known gone]
      rfl
  | _ => cases intent

/-- Whoever gets an error has caused no request. -/
theorem dispatcher_of_fails {now : Instant} {m : Mediator J} {o : Operation}
    (failed : m.fails now o = true) : (m.perform now o).dispatcher = m.dispatcher := by
  cases o with
  | register c lease =>
    show (m.register now c lease).2.dispatcher = _
    simp only [fails] at failed
    rcases m.register_cases now c lease with ⟨e, h⟩ | ⟨previous, d, -, h⟩
    · rw [h]
    · rw [h] at failed
      cases failed
  | update id delta mode lease =>
    show (m.update now id delta mode lease).2.dispatcher = _
    simp only [fails] at failed
    rcases m.update_cases now id delta mode lease with ⟨e, h⟩ | ⟨updated, d, -, h⟩
    · rw [h]
    · rw [h] at failed
      cases failed
  | renew id lease =>
    show (m.renew now id lease).2.dispatcher = _
    rcases m.renew_cases now id lease with ⟨e, h⟩ | ⟨-, h⟩
    · rw [h]
    · rw [h]
  | unregister id =>
    show (m.unregister id).2.dispatcher = _
    simp only [fails] at failed
    rcases m.unregister_cases id with ⟨e, h⟩ | ⟨c, -, h⟩
    · rw [h]
    · rw [h] at failed
      cases failed
  | evict id =>
    show (m.evict id).2.dispatcher = _
    simp only [fails] at failed
    cases hlease : (m.leases.get? id).isSome with
    | true => rw [evict_of_leased hlease]
    | false =>
      have unleased : m.leases.get? id = none := by simpa using hlease
      rcases evict_cases unleased with ⟨e, -, h⟩ | ⟨-, h⟩ | ⟨c, -, h⟩
      · rw [h]
      · rw [h]
      · rw [h] at failed
        cases failed
  | subscribe r =>
    have hperform : m.perform now (.subscribe r) = (m.subscribe r).2 := rfl
    rw [hperform]
    unfold subscribe
    repeat' split
    all_goals rfl
  | unsubscribe id =>
    show (m.unsubscribe id).2.dispatcher = _
    unfold unsubscribe
    split
    · rfl
    · simp only
      split <;> rfl
  | query q =>
    show (m.query q).2.dispatcher = _
    rcases m.query_cases q with h | h
    · rw [h]
    · rw [h]
  | queryPage q pageSize =>
    show (m.queryPage q pageSize).2.dispatcher = _
    obtain ⟨registry, cursors, -, h⟩ := m.queryPage_cursors q pageSize
    rw [h]
  | queryNext cursor =>
    show (m.queryNext cursor).2.dispatcher = _
    obtain ⟨cursors, h⟩ := m.queryNext_cases cursor
    rw [h]
  | restore answers =>
    show (m.restore now answers).2.dispatcher = _
    rcases m.restore_cases now answers with h | ⟨loaded, -, h⟩
    · rw [h]
    · obtain ⟨cs, registry, leases, ids, -, -, -, h'⟩ :=
        m.reinstate_cases now (loaded.map fun c => (c, answers c))
      rw [h, h']
  | reinstate answers =>
    show (m.reinstate now answers).2.dispatcher = _
    obtain ⟨cs, registry, leases, ids, -, -, -, h⟩ := m.reinstate_cases now answers
    rw [h]
  | _ => cases failed

/-- After any history, an operation that registers a component, updates one to what is given here,
or makes one depart, notifies of this exactly the subscribers to such events whose query holds of
the component, once for each subscription and in the order of the table. Those are the subscriptions
whose query finds the component after it has come or changed, or before it goes. To register, update
or unregister a component is such an event whenever it succeeds. Without an event there is no
notification, and an operation that fails causes no request at all. -/
theorem notified_exactly (settings : MediatorSettings) (faults : FaultPlan) (journal : J)
    (cursorNames : Nat → String) (subscriptionNames : Nat → SubscriptionId)
    (history : List (Instant × Operation)) (now : Instant) (o : Operation) :
    let start := (new settings journal cursorNames subscriptionNames).withFaults faults
    let m := start.after history
    let m' := m.perform now o
    start.KeyedAlong (history ++ [(now, o)]) →
      (∀ callback c, m.event now o = some (callback, c) →
        m'.dispatcher = { m.dispatcher with
          waiting := m.dispatcher.waiting ++
            (m.subscriptions.list.filter fun s =>
              s.callback = callback ∧ s.query.verdict c = .holds).map fun s =>
                { key := ⟨s.owner, .notification s.id⟩
                  endpoint := s.target
                  message := Notification.toNode
                    ⟨s.id, callback, if s.full then .full c else .basic c.summary⟩
                  wait := m.settings.dispatch.requestTimeout } } ∧
        ∀ s ∈ m.subscriptions.list, s.query.verdict c = .holds ↔
          c.id ∈ ((if callback = .removedComponent then m else m').directory.search
            s.query).map Component.id) ∧
      (∀ callback id, o.intent = some (callback, id) → m.fails now o = false →
        ∃ c, c.id = id ∧ m.event now o = some (callback, c)) ∧
      (m.event now o = none → o.concern ≠ .requests → m.dispatcher.Asks m'.dispatcher) ∧
      (m.fails now o = true → m'.dispatcher = m.dispatcher) := by
  intro start m m' keyed
  obtain ⟨keyedBefore, inserts, -⟩ := keyedAlong_append.mp keyed
  have indexed : m.directory.Indexed :=
    KeyedAlong.indexed (m := start) Directory.indexed_empty keyedBefore
  have indexed' : m'.directory.Indexed := indexed_perform indexed now inserts
  have announces : m.Announces o m' (m.event now o) := announces_perform indexed.named now o
  refine ⟨fun callback c hevent => ?_, fun _ _ => event_of_intent indexed.named, fun hevent => ?_,
    dispatcher_of_fails⟩
  · rw [hevent] at announces
    obtain ⟨hdispatcher, stored⟩ := announces
    refine ⟨hdispatcher.trans (m.notify_dispatcher callback c), fun s _ => ?_⟩
    have searched : (if callback = .removedComponent then m else m').directory.Indexed := by
      split
      · exact indexed
      · exact indexed'
    exact (Directory.found_iff searched stored s.query).symm
  · rw [hevent] at announces
    exact announces

end Journaled

/-- A guest who wants to know of the desks that come to the hall, in full, and of those that go. -/
def guestWishes : List (Instant × Operation) :=
  let inHall : Query := .onAttribute "room" .equal (.string "hall")
  let wish (callback : String) (full : Bool) : SubscribeRequest :=
    ⟨⟨"guest"⟩, ⟨"localhost", 7000⟩, callback, full, some inHall⟩
  [(⟨0⟩, .subscribe (wish "newComponent" true)), (⟨1⟩, .subscribe (wish "removedComponent" false))]

/-- A desk in the hall. -/
def hallDesk : Component :=
  { id := ⟨"desk"⟩, kind := .widget, constant := .ofList [.valued "room" (.string "hall")] }

/-- When the desk comes, the guest is told by the first subscription, whose query finds it. -/
theorem notified_exactly_hallDesk :
    let start : Mediator NoJournal :=
      (new {} ⟨⟩ (fun _ => "") fun n => ⟨.supply 0 n⟩).withFaults fun _ _ => none
    let m := start.after guestWishes
    let m' := m.perform ⟨2⟩ (.register hallDesk none)
    start.KeyedAlong (guestWishes ++ [(⟨2⟩, .register hallDesk none)]) ∧
      m.event ⟨2⟩ (.register hallDesk none) = some (.newComponent, hallDesk) ∧
      m'.dispatcher.waiting.map Errand.key = [⟨⟨"guest"⟩, .notification ⟨.supply 0 0⟩⟩] ∧
      ∀ s ∈ m.subscriptions.list, s.query.verdict hallDesk = .holds ↔
        hallDesk.id ∈ (m'.directory.search s.query).map Component.id := by
  intro start m m'
  have keyed : start.KeyedAlong (guestWishes ++ [(⟨2⟩, .register hallDesk none)]) := by
    refine ⟨fun c h => h.elim, fun c h => h.elim, fun c h => ?_, trivial⟩
    obtain rfl : c = hallDesk := h
    exact ⟨Attributes.keyed_ofList _, Attributes.keyed_empty⟩
  have hevent : m.event ⟨2⟩ (.register hallDesk none) = some (.newComponent, hallDesk) := by
    decide +kernel
  have hnotified := (notified_exactly {} (fun _ _ => none) (⟨⟩ : NoJournal) (fun _ => "")
    (fun n => ⟨.supply 0 n⟩) guestWishes ⟨2⟩ (.register hallDesk none) keyed).1 .newComponent
    hallDesk hevent
  exact ⟨keyed, hevent, by decide +kernel, hnotified.2⟩

end Mediator

end Rendezvous
