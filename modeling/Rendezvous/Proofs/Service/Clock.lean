import Rendezvous.Proofs.Service.Quiet
import Rendezvous.Proofs.Transport.Dispatcher
/-!
# Runs against the clock

What happens in a world, one event at a time (`World.happen?`): the service is asked something, a
request is sent or lands, a timer fires, what is in a mailbox is handled, the network changes, or
the clock goes on. The clock goes on only when nothing is left to do, and no further than to the
next instant at which something is due. So every timer and every completion is handled at its
instant, though in any order with what else happens then. The program has one of these orders
(`World.exists_follow?_runWithin`).

What holds in every world that is reached from a new service is `World.Regular`. Beside what is
known of the service after any history, it says how long anything is waited for, and that the
questions which are still to be sent are about leases that are being asked about.
-/

namespace Rendezvous

namespace World

/-- What can happen in a world. -/
inductive Event
  /-- The service is asked something. -/
  | operate (o : Mediator.Operation)
  /-- Requests are sent. -/
  | launch
  /-- Requests come to something. -/
  | land
  /-- Timers fire. -/
  | fire
  /-- The oldest expiry is handled. -/
  | expire
  /-- The oldest completion is handled. -/
  | conclude
  /-- The network changes. -/
  | reroute (network : Network)
  /-- The clock goes on. -/
  | wait (until_ : Instant)

variable {J : Type} [Journal J]

/-- Whether the clock may go on to an instant. -/
def mayWait (w : World J) (i : Instant) : Bool :=
  w.step?.isNone && decide (w.now ≤ i) &&
    match w.nextDue? with
    | some due => decide (i ≤ due)
    | none => true

/-- The world after an event, if the event can happen. -/
def happen? (w : World J) : Event → Option (World J)
  | .operate o =>
    if o.isRequest then some { w with mediator := w.mediator.perform w.now o } else none
  | .launch => some w.launch
  | .land => some w.land
  | .fire => some w.fire
  | .expire =>
    match w.expiries with
    | [] => none
    | x :: expiries =>
      some { w with expiries, mediator := w.mediator.handleExpiry w.now x }
  | .conclude =>
    match w.mediator.dispatcher.receive with
    | none => none
    | some (c, dispatcher) =>
      some { w with mediator := { w.mediator with dispatcher }.handleCompletion w.now c }
  | .reroute network => some { w with network }
  | .wait i => if w.mayWait i then some { w with now := i } else none

/-- The world after events, if they can happen one after the other. -/
def follow? (w : World J) : List Event → Option (World J)
  | [] => some w
  | e :: rest => (w.happen? e).bind fun v => v.follow? rest

/-- Whether each of the events is allowed in the world in which it happens. -/
def along (allowed : World J → Event → Bool) (w : World J) : List Event → Bool
  | [] => true
  | e :: rest =>
    allowed w e &&
      match w.happen? e with
      | some v => v.along allowed rest
      | none => true

/-- What the program does next without any waiting is an event. -/
theorem happen?_of_step? {w v : World J} (h : w.step? = some v) : ∃ e, w.happen? e = some v := by
  unfold step? at h
  simp only at h
  split at h
  · exact ⟨.launch, h⟩
  · split at h
    · exact ⟨.land, h⟩
    · split at h
      · exact ⟨.fire, h⟩
      · split at h
        · split at h
          · next hx => exact ⟨.expire, by simp only [happen?, hx, h]⟩
          · next hc => exact ⟨.conclude, by simp only [happen?, hc, h]⟩
          · cases h
        · cases h

end World

/-! ## What is due -/

section Least

variable {α : Type} (instant : α → Instant) {step : Option Instant → α → Option Instant}
  (next : ∀ i a, step (some i) a = some (min i (instant a)))
include next

theorem foldl_min_some (as : List α) (i : Instant) :
    ∃ least, as.foldl step (some i) = some least ∧ least ≤ i ∧ ∀ a ∈ as, least ≤ instant a := by
  induction as generalizing i with
  | nil => exact ⟨i, rfl, Nat.le_refl _, fun _ h => absurd h List.not_mem_nil⟩
  | cons a as ih =>
    obtain ⟨least, heq, hle, hall⟩ := ih (min i (instant a))
    rw [Duration.le_def, Duration.min_nanos] at hle
    refine ⟨least, by rw [List.foldl_cons, next, heq], ?_, ?_⟩
    · rw [Duration.le_def]
      omega
    · refine List.forall_mem_cons.mpr ⟨?_, hall⟩
      rw [Duration.le_def]
      omega

/-- Going through a list and keeping the least instant so far finds the least one. -/
theorem foldl_min_none (first : ∀ a, step none a = some (instant a)) {as : List α}
    (nonempty : as ≠ []) :
    ∃ least, as.foldl step none = some least ∧ ∀ a ∈ as, least ≤ instant a := by
  cases as with
  | nil => exact absurd rfl nonempty
  | cons a as =>
    obtain ⟨least, heq, hle, hall⟩ := foldl_min_some instant next as (instant a)
    exact ⟨least, by rw [List.foldl_cons, first, heq], List.forall_mem_cons.mpr ⟨hle, hall⟩⟩

end Least

/-- As long as requests are under way, the first of them to land is known. -/
theorem Dispatcher.exists_nextDue? {d : Dispatcher} (h : d.flights ≠ []) :
    ∃ due, d.nextDue? = some due ∧ ∀ f ∈ d.flights, due ≤ f.landsAt :=
  foldl_min_none Flight.landsAt (fun _ _ => rfl) (fun _ => rfl) h

/-- As long as timers run, the first of them to fire is known. -/
theorem LeaseTable.exists_nextDue? {t : LeaseTable} (h : t.timers ≠ []) :
    ∃ due, t.nextDue? = some due ∧ ∀ timer ∈ t.timers, due ≤ timer.due :=
  foldl_min_none Timer.due (fun _ _ => rfl) (fun _ => rfl) h

/-- The longest time for which anything is waited. -/
def MediatorSettings.longestWait (s : MediatorSettings) : Duration :=
  max s.dispatch.requestTimeout s.lease.handshakeTimeout

namespace Mediator

variable {J : Type} {settings : MediatorSettings} {now : Instant} {m m' : Mediator J}

/-- Whether nothing is waited for longer than the longest time, and the questions at the end of
leases are those about leases that are being asked about, or are no longer there. -/
structure Timed (settings : MediatorSettings) (now : Instant) (m : Mediator J) : Prop where
  bounded : ∀ q ∈ m.dispatcher.waiting, q.wait ≤ settings.longestWait
  landing : ∀ f ∈ m.dispatcher.flights, f.landsAt ≤ now + settings.longestWait
  given : ∀ q ∈ m.dispatcher.waiting, ∀ id generation, q.key = ⟨id, .leaseEnd generation⟩ →
    q.wait = settings.lease.handshakeTimeout ∧ generation < m.leases.nextGeneration
  asking : ∀ q ∈ m.dispatcher.waiting, ∀ id generation, q.key = ⟨id, .leaseEnd generation⟩ →
    ∀ e, m.leases.get? id = some e → e.generation = generation → e.phase = .handshaking

theorem Timed.later (timed : m.Timed settings now) {i : Instant} (h : now ≤ i) :
    m.Timed settings i where
  bounded := timed.bounded
  landing f hf := Nat.le_trans (timed.landing f hf) (Nat.add_le_add_right h _)
  given := timed.given
  asking := timed.asking

theorem requestTimeout_le (settings : MediatorSettings) :
    settings.dispatch.requestTimeout ≤ settings.longestWait := by
  unfold MediatorSettings.longestWait
  rw [Duration.le_def, Duration.max_nanos]
  omega

theorem handshakeTimeout_le (settings : MediatorSettings) :
    settings.lease.handshakeTimeout ≤ settings.longestWait := by
  unfold MediatorSettings.longestWait
  rw [Duration.le_def, Duration.max_nanos]
  omega

theorem Timed.quiet (timed : m.Timed settings now) (configured : m.settings = settings)
    (quiet : m.Quiet now m') : m'.Timed settings now := by
  obtain ⟨errands, hdispatcher, hnotes⟩ := quiet.dispatcher
  constructor
  · intro q hq
    rw [hdispatcher] at hq
    rcases List.mem_append.mp hq with hq | hq
    · exact timed.bounded q hq
    · rw [(hnotes q hq).1, configured]
      exact requestTimeout_le settings
  · intro f hf
    rw [hdispatcher] at hf
    exact timed.landing f hf
  · intro q hq id generation hkey
    rw [hdispatcher] at hq
    rcases List.mem_append.mp hq with hq | hq
    · obtain ⟨hwait, old⟩ := timed.given q hq id generation hkey
      exact ⟨hwait, Nat.lt_of_lt_of_le old quiet.leases.later⟩
    · exact absurd hkey ((hnotes q hq).2 id generation)
  · intro q hq id generation hkey e he hgeneration
    rw [hdispatcher] at hq
    rcases List.mem_append.mp hq with hq | hq
    · obtain ⟨-, old⟩ := timed.given q hq id generation hkey
      rw [← hgeneration] at old
      exact timed.asking q hq id generation hkey e (quiet.leases.kept id e he old).1 hgeneration
    · exact absurd hkey ((hnotes q hq).2 id generation)

theorem Timed.launch (timed : m.Timed settings now) (network : Network) :
    Timed settings now { m with dispatcher := (m.dispatcher.launch network now).2 } where
  bounded q hq := timed.bounded q (Dispatcher.mem_waiting_launch hq)
  landing f hf := by
    rcases Dispatcher.mem_flights_launch hf with hf | ⟨q, hq, rfl⟩
    · exact timed.landing f hf
    · have hlands := (Dispatcher.takeOff_landsAt network now q).2
      exact Nat.le_trans hlands (Nat.add_le_add_left (timed.bounded q hq) _)
  given q hq := timed.given q (Dispatcher.mem_waiting_launch hq)
  asking q hq := timed.asking q (Dispatcher.mem_waiting_launch hq)

/-- A question is asked about a lease that runs. -/
theorem Timed.ask (timed : m.Timed settings now) (configured : m.settings = settings)
    (numbered : m.leases.Numbered) {x : Expiry} {e : LeaseEntry} {c : Component}
    (leased : m.leases.get? x.component = some e) (hgeneration : e.generation = x.generation)
    (registry : Registry) :
    Timed settings now { m with
      registry
      leases := { m.leases with
        entries := m.leases.entries.insert x.component { e with phase := .handshaking } }
      dispatcher := m.dispatcher.dispatch (m.question x c) } := by
  constructor
  · intro q hq
    rcases List.mem_append.mp hq with hq | hq
    · exact timed.bounded q hq
    · rw [List.mem_singleton.mp hq, question, configured]
      exact handshakeTimeout_le settings
  · exact timed.landing
  · intro q hq id generation hkey
    rcases List.mem_append.mp hq with hq | hq
    · exact timed.given q hq id generation hkey
    · rw [List.mem_singleton.mp hq] at hkey ⊢
      cases hkey
      refine ⟨by rw [question, configured], ?_⟩
      rw [← hgeneration]
      exact numbered x.component e leased
  · intro q hq id generation hkey e' he' hgeneration'
    have hentry : (m.leases.entries.insert x.component { e with phase := .handshaking }).get? id =
        some e' := he'
    rw [SortedMap.get?_insert] at hentry
    split at hentry
    · cases hentry
      rfl
    · next hid =>
      rcases List.mem_append.mp hq with hq | hq
      · exact timed.asking q hq id generation hkey e' hentry hgeneration'
      · rw [List.mem_singleton.mp hq] at hkey
        cases hkey
        exact absurd rfl hid

end Mediator

namespace World

variable {J : Type} [Journal J] {settings : MediatorSettings} {w v : World J}

/-- When nothing is left to do, requests wait only while others are under way, and the mailboxes are
empty. -/
theorem idle_of_step? (running : w.running = true) (h : w.step? = none) :
    (w.mediator.dispatcher.waiting ≠ [] → w.mediator.dispatcher.flights ≠ []) ∧
      w.expiries = [] ∧ w.mediator.dispatcher.completed = [] := by
  unfold step? at h
  simp only at h
  split at h
  · cases h
  · next hlaunch =>
    refine ⟨fun hwaiting hflights => hlaunch ⟨hwaiting, ?_⟩, ?_⟩
    · show w.mediator.dispatcher.flights.length < max 1 _
      rw [hflights, List.length_nil]
      omega
    · split at h
      · cases h
      · split at h
        · cases h
        · split at h
          · cases h
          · cases h
          · next hexpiries hreceive =>
            refine ⟨hexpiries, ?_⟩
            unfold Dispatcher.receive at hreceive
            split at hreceive
            · assumption
            · cases hreceive

/-- The clock goes on when nothing is left to do, and passes over nothing that is due. -/
theorem of_mayWait {i : Instant} (h : w.mayWait i = true) :
    w.step? = none ∧ w.now ≤ i ∧ (∀ f ∈ w.mediator.dispatcher.flights, i ≤ f.landsAt) ∧
      ∀ timer ∈ w.mediator.leases.timers, i ≤ timer.due := by
  unfold mayWait at h
  rw [Bool.and_eq_true, Bool.and_eq_true, Option.isNone_iff_eq_none, decide_eq_true_iff] at h
  obtain ⟨⟨idle, later⟩, early⟩ := h
  have early' : ∀ due, w.nextDue? = some due → i ≤ due := by
    intro due hdue
    rw [hdue] at early
    exact of_decide_eq_true early
  -- The next of all is no later than the next landing and the next timer.
  have hmin : ∀ a b : Instant, min a b ≤ a ∧ min a b ≤ b := by
    intro a b
    rw [Duration.le_def, Duration.le_def, Duration.min_nanos]
    omega
  refine ⟨idle, later, fun f hf => ?_, fun timer htimer => ?_⟩
  · obtain ⟨due, hdue, hall⟩ := Dispatcher.exists_nextDue? (List.ne_nil_of_mem hf)
    refine Nat.le_trans ?_ (hall f hf)
    cases hlease : w.mediator.leases.nextDue? with
    | none => exact early' due (by unfold nextDue?; rw [hdue, hlease])
    | some b =>
      have hle := early' (min due b) (by unfold nextDue?; rw [hdue, hlease])
      exact Nat.le_trans hle (hmin due b).1
  · obtain ⟨due, hdue, hall⟩ := LeaseTable.exists_nextDue? (List.ne_nil_of_mem htimer)
    refine Nat.le_trans ?_ (hall timer htimer)
    cases hlanding : w.mediator.dispatcher.nextDue? with
    | none => exact early' due (by unfold nextDue?; rw [hdue, hlanding])
    | some a =>
      have hle := early' (min a due) (by unfold nextDue?; rw [hdue, hlanding])
      exact Nat.le_trans hle (hmin a due).2

omit [Journal J] in
theorem lt_of_isDue {due : Option Instant} {now i : Instant} (later : isDue due now = false)
    (h : due = some i) : now < i := by
  rw [h] at later
  exact Nat.lt_of_not_le (of_decide_eq_false later)

/-- When nothing is left to do, what is due next is due later. -/
theorem lt_of_nextDue? {i : Instant} (idle : w.step? = none) (h : w.nextDue? = some i) :
    w.now < i := by
  unfold step? at idle
  simp only at idle
  split at idle
  · cases idle
  · split at idle
    · cases idle
    · next hlanding =>
      split at idle
      · cases idle
      · next hfiring =>
        rw [Bool.not_eq_true] at hlanding hfiring
        have landing := fun i => lt_of_isDue (i := i) hlanding
        have firing := fun i => lt_of_isDue (i := i) hfiring
        unfold nextDue? at h
        cases hlanding : w.mediator.dispatcher.nextDue? with
        | none =>
          rw [hlanding] at h
          exact firing i h
        | some a =>
          cases hfiring : w.mediator.leases.nextDue? with
          | none =>
            rw [hlanding, hfiring] at h
            cases h
            exact landing _ hlanding
          | some b =>
            rw [hlanding, hfiring] at h
            cases h
            have before_a := landing a hlanding
            have before_b := firing b hfiring
            rw [Duration.lt_def] at before_a before_b ⊢
            rw [Duration.min_nanos]
            omega

theorem now_of_step? (h : w.step? = some v) : v.now = w.now := by
  unfold step? at h
  simp only at h
  split at h
  · cases h
    rfl
  · split at h
    · cases h
      rfl
    · split at h
      · cases h
        rfl
      · split at h
        · split at h
          · cases h
            rfl
          · cases h
            rfl
          · cases h
        · cases h

/-- The program's own runs are such runs: it comes to the instant, or does all the steps it may. -/
theorem exists_follow?_runWithin {until_ : Instant} (early : w.now ≤ until_) (steps : Nat) :
    ∃ events x, w.follow? events = some x ∧
      ((x.now = until_ ∧ w.runWithin until_ steps = x) ∨
        (events.length = steps ∧
          w.runWithin until_ steps = { x with now := max x.now until_ })) := by
  induction steps generalizing w with
  | zero => exact ⟨[], w, rfl, .inr ⟨rfl, rfl⟩⟩
  | succ steps ih =>
    -- One event and the run from there make a run.
    have goes_on : ∀ (e : Event) (v : World J), w.happen? e = some v → v.now ≤ until_ →
        w.runWithin until_ (steps + 1) = v.runWithin until_ steps →
        ∃ events x, w.follow? events = some x ∧
          ((x.now = until_ ∧ w.runWithin until_ (steps + 1) = x) ∨
            (events.length = steps + 1 ∧
              w.runWithin until_ (steps + 1) = { x with now := max x.now until_ })) := by
      intro e v he hnow hrun
      obtain ⟨events, x, hx, hend⟩ := ih hnow
      refine ⟨e :: events, x, Option.bind_eq_some_iff.mpr ⟨v, he, hx⟩, ?_⟩
      rw [hrun, List.length_cons, Nat.add_right_cancel_iff]
      exact hend
    cases hstep : w.step? with
    | some v =>
      obtain ⟨e, he⟩ := happen?_of_step? hstep
      refine goes_on e v he ?_ (by simp only [runWithin, hstep])
      rw [now_of_step? hstep]
      exact early
    | none =>
      have waits : ∀ i, w.now ≤ i → (∀ due, w.nextDue? = some due → i ≤ due) →
          w.happen? (.wait i) = some { w with now := i } := by
        intro i hi hdue
        refine if_pos ?_
        unfold mayWait
        rw [hstep, decide_eq_true hi]
        cases h : w.nextDue? with
        | none => rfl
        | some due => exact decide_eq_true (hdue due h)
      -- The clock goes on to the instant itself.
      have comes : (∀ due, w.nextDue? = some due → until_ ≤ due) →
          w.runWithin until_ (steps + 1) = { w with now := until_ } →
          ∃ events x, w.follow? events = some x ∧
            ((x.now = until_ ∧ w.runWithin until_ (steps + 1) = x) ∨
              (events.length = steps + 1 ∧
                w.runWithin until_ (steps + 1) = { x with now := max x.now until_ })) := by
        intro hdue hrun
        refine ⟨[.wait until_], { w with now := until_ }, ?_, .inl ⟨rfl, hrun⟩⟩
        exact Option.bind_eq_some_iff.mpr ⟨_, waits until_ early hdue, rfl⟩
      cases hnext : w.nextDue? with
      | none =>
        refine comes (fun due hdue => ?_) (by simp only [runWithin, hstep, hnext])
        rw [hnext] at hdue
        cases hdue
      | some i =>
        by_cases hi : i ≤ until_
        · refine goes_on (.wait i) _ (waits i ?_ fun due hdue => ?_) hi
            (by simp only [runWithin, hstep, hnext, if_pos hi])
          · exact Nat.le_of_lt (lt_of_nextDue? hstep hnext)
          · rw [hnext] at hdue
            cases hdue
            exact Nat.le_refl _
        · refine comes (fun due hdue => ?_) (by simp only [runWithin, hstep, hnext, if_neg hi])
          rw [hnext] at hdue
          cases hdue
          exact Nat.le_of_not_le hi

/-- What holds in every world that is reached from a new service with the given settings. -/
structure Regular (settings : MediatorSettings) (w : World J) : Prop where
  running : w.running = true
  listening : w.listening = true
  configured : w.mediator.settings = settings
  matched : w.mediator.Matched
  numbered : w.mediator.leases.Numbered
  timed : w.mediator.Timed settings w.now

omit [Journal J] in
theorem regular_new (settings : MediatorSettings) (journal : J) (cursorNames : Nat → String)
    (subscriptionNames : Nat → SubscriptionId) (network : Network) :
    Regular settings
      { mediator := .new settings journal cursorNames subscriptionNames, network } where
  running := rfl
  listening := rfl
  configured := rfl
  matched := Mediator.matched_new settings journal cursorNames subscriptionNames
  numbered _ _ h := by cases h
  timed := ⟨fun _ h => absurd h List.not_mem_nil, fun _ h => absurd h List.not_mem_nil,
    fun _ h => absurd h List.not_mem_nil, fun _ h => absurd h List.not_mem_nil⟩

/-- To the service an event is a few operations. -/
theorem exists_history (listening : w.listening = true) {e : Event} (h : w.happen? e = some v) :
    ∃ history, v.mediator = w.mediator.after history := by
  cases e with
  | operate o =>
    simp only [happen?] at h
    split at h
    · cases h
      exact ⟨[(w.now, o)], rfl⟩
    · cases h
  | launch =>
    cases h
    exact ⟨[(w.now, .launch w.network)], rfl⟩
  | land =>
    cases h
    refine ⟨[(w.now, .land)], ?_⟩
    simp only [World.land, listening, if_true]
    rfl
  | fire =>
    cases h
    exact ⟨[(w.now, .fire)], rfl⟩
  | expire =>
    simp only [happen?] at h
    split at h
    · cases h
    · next x expiries _ =>
      cases h
      exact ⟨[(w.now, .handleExpiry x)], rfl⟩
  | conclude =>
    simp only [happen?] at h
    split at h
    · cases h
    · next c dispatcher hreceive =>
      cases h
      refine ⟨[(w.now, .receive), (w.now, .handleCompletion c)], ?_⟩
      simp only [Mediator.after, List.foldl_cons, List.foldl_nil, Mediator.perform, hreceive]
  | reroute network =>
    cases h
    exact ⟨[], rfl⟩
  | wait i =>
    simp only [happen?] at h
    split at h
    · cases h
      exact ⟨[], rfl⟩
    · cases h

/-- What an event makes of the leases and the requests of a world. -/
inductive Passes (w : World J) : Event → World J → Prop
  /-- Leases start or end, and notifications are to be sent. -/
  | quiet {e : Event} {mediator : Mediator J} {network : Network}
      (h : w.mediator.Quiet w.now mediator) : Passes w e { w with mediator, network }
  | launch : Passes w .launch w.launch
  | land : Passes w .land { w with
      mediator := { w.mediator with dispatcher := w.mediator.dispatcher.land w.now } }
  | fire : Passes w .fire { w with
      mediator := { w.mediator with leases := (w.mediator.leases.fire w.now).2 }
      expiries := w.expiries ++ (w.mediator.leases.fire w.now).1.map Timer.expiry }
  /-- An expiry is passed over. -/
  | stale {x : Expiry} {expiries : List Expiry} (h : w.expiries = x :: expiries)
      (stale : ∀ e, w.mediator.leases.get? x.component = some e →
        e.generation = x.generation → e.phase ≠ .active) : Passes w .expire { w with expiries }
  /-- A component is to be asked whose lease has run out. -/
  | ask {x : Expiry} {expiries : List Expiry} {entry : LeaseEntry} {c : Component}
      (h : w.expiries = x :: expiries) (leased : w.mediator.leases.get? x.component = some entry)
      (generation : entry.generation = x.generation) (active : entry.phase = .active) :
      Passes w .expire { w with
        expiries
        mediator := { w.mediator with
          registry := w.mediator.registry.after w.mediator.directory
          leases := { w.mediator.leases with
            entries := w.mediator.leases.entries.insert x.component
              { entry with phase := .handshaking } }
          dispatcher := w.mediator.dispatcher.dispatch (w.mediator.question x c) } }
  /-- What came of a request is handled, and ends the arming of a lease that it is about. -/
  | conclude {c : Completion} {rest : List Completion} {mediator : Mediator J}
      (h : w.mediator.dispatcher.completed = c :: rest)
      (quiet : Mediator.Quiet w.now
        { w.mediator with dispatcher := { w.mediator.dispatcher with completed := rest } } mediator)
      (ends : ∀ id generation entry entry', c.key = ⟨id, .leaseEnd generation⟩ →
        w.mediator.leases.get? id = some entry → entry.generation = generation →
        entry.phase = .handshaking → mediator.leases.get? id = some entry' →
        entry'.generation ≠ generation) :
      Passes w .conclude { w with mediator }
  /-- The clock goes on. -/
  | wait {i : Instant} (h : w.mayWait i = true) : Passes w (.wait i) { w with now := i }

omit [Journal J] in
theorem land_of_listening (listening : w.listening = true) : w.land = { w with
    mediator := { w.mediator with dispatcher := w.mediator.dispatcher.land w.now } } := by
  simp only [World.land, listening, if_true]

omit [Journal J] in
theorem fire_of_listening (listening : w.listening = true) : w.fire = { w with
    mediator := { w.mediator with leases := (w.mediator.leases.fire w.now).2 }
    expiries := w.expiries ++ (w.mediator.leases.fire w.now).1.map Timer.expiry } := by
  simp only [World.fire, listening, if_true]

theorem Regular.passes (regular : w.Regular settings) {e : Event} (h : w.happen? e = some v) :
    w.Passes e v := by
  cases e with
  | operate o =>
    simp only [happen?] at h
    split at h
    · next hrequest =>
      cases h
      exact .quiet (Mediator.quiet_perform regular.numbered w.now hrequest)
    · cases h
  | launch =>
    cases h
    exact .launch
  | land =>
    cases h
    rw [land_of_listening regular.listening]
    exact .land
  | fire =>
    cases h
    rw [fire_of_listening regular.listening]
    exact .fire
  | expire =>
    simp only [happen?] at h
    split at h
    · cases h
    · next x expiries hexpiries =>
      cases h
      rcases w.mediator.handleExpiry_cases w.now regular.matched x with
        ⟨hsame, stale⟩ | ⟨entry, c, leased, hgeneration, active, hasked⟩
      · rw [hsame]
        exact .stale hexpiries stale
      · rw [hasked]
        exact .ask hexpiries leased hgeneration active
  | conclude =>
    simp only [happen?] at h
    split at h
    · cases h
    · next c dispatcher hreceive =>
      cases h
      obtain ⟨rest, hcompleted, rfl⟩ := Dispatcher.of_receive hreceive
      let received : Mediator J := { w.mediator with
        dispatcher := { w.mediator.dispatcher with completed := rest } }
      have numbered : received.leases.Numbered := regular.numbered
      refine .conclude hcompleted (Mediator.quiet_handleCompletion numbered w.now c) ?_
      intro id generation entry entry' key asked hgeneration hphase
      exact Mediator.ends_handleCompletion numbered w.now key asked hgeneration hphase
  | reroute network =>
    cases h
    exact .quiet (.same (.refl regular.numbered w.now) rfl)
  | wait i =>
    simp only [happen?] at h
    split at h
    · next hwait =>
      cases h
      exact .wait hwait
    · cases h

theorem Regular.happen (regular : w.Regular settings) {e : Event} (h : w.happen? e = some v) :
    v.Regular settings := by
  obtain ⟨history, hmediator⟩ := exists_history regular.listening h
  have named := regular.matched.named
  have configured : v.mediator.settings = settings := by
    rw [hmediator, Mediator.settings_after named, regular.configured]
  have matched : v.mediator.Matched := by
    rw [hmediator]
    exact regular.matched.after history
  have numbered : v.mediator.leases.Numbered := by
    rw [hmediator]
    exact regular.numbered.evolves (Mediator.evolves_after named history)
  have timed := regular.timed
  -- What is left is the mailboxes, which no event takes away, and the requests.
  have assemble (running : v.running = true) (listening : v.listening = true)
      (timed : v.mediator.Timed settings v.now) : v.Regular settings :=
    ⟨running, listening, configured, matched, numbered, timed⟩
  cases regular.passes h with
  | quiet quiet =>
    exact assemble regular.running regular.listening (timed.quiet regular.configured quiet)
  | launch => exact assemble regular.running regular.listening (timed.launch w.network)
  | land =>
    refine assemble regular.running regular.listening
      ⟨timed.bounded, fun f hf => ?_, timed.given, timed.asking⟩
    exact timed.landing f (List.mem_filter.mp hf).1
  | fire =>
    exact assemble regular.running regular.listening
      ⟨timed.bounded, timed.landing, timed.given, timed.asking⟩
  | stale => exact assemble regular.running regular.listening timed
  | ask _ leased hgeneration _ =>
    exact assemble regular.running regular.listening
      (timed.ask regular.configured regular.numbered leased hgeneration _)
  | @conclude _ rest _ _ quiet _ =>
    have received : Mediator.Timed settings w.now { w.mediator with
        dispatcher := { w.mediator.dispatcher with completed := rest } } :=
      ⟨timed.bounded, timed.landing, timed.given, timed.asking⟩
    exact assemble regular.running regular.listening (received.quiet regular.configured quiet)
  | wait hwait =>
    exact assemble regular.running regular.listening (timed.later (of_mayWait hwait).2.1)

/-! ## Along a run -/

theorem follow?_append (w : World J) (first rest : List Event) :
    w.follow? (first ++ rest) = (w.follow? first).bind fun x => x.follow? rest := by
  induction first generalizing w with
  | nil => rfl
  | cons e first ih =>
    show (w.happen? e).bind _ = ((w.happen? e).bind _).bind _
    cases w.happen? e with
    | none => rfl
    | some v => exact ih v

/-- What every event keeps, a run keeps. -/
theorem kept_follow {Kept : World J → Prop}
    (step : ∀ w e v, Kept w → w.happen? e = some v → Kept v) {events : List Event} (kept : Kept w)
    (followed : w.follow? events = some v) : Kept v := by
  induction events generalizing w with
  | nil =>
    cases followed
    exact kept
  | cons e rest ih =>
    obtain ⟨u, hu, hrest⟩ := Option.bind_eq_some_iff.mp followed
    exact ih (step w e u kept hu) hrest

theorem Regular.follow (regular : w.Regular settings) {events : List Event}
    (followed : w.follow? events = some v) : v.Regular settings :=
  kept_follow (fun _ _ _ regular h => regular.happen h) regular followed

/-- What every allowed event keeps, a run of allowed events keeps. -/
theorem kept_along {Kept : World J → Prop} {allowed : World J → Event → Bool}
    (step : ∀ w e v, Kept w → allowed w e = true → w.happen? e = some v → Kept v)
    {events : List Event} (kept : Kept w) (permitted : w.along allowed events = true)
    (followed : w.follow? events = some v) : Kept v := by
  induction events generalizing w with
  | nil =>
    cases followed
    exact kept
  | cons e rest ih =>
    obtain ⟨u, hu, hrest⟩ := Option.bind_eq_some_iff.mp followed
    unfold along at permitted
    rw [hu, Bool.and_eq_true] at permitted
    exact ih (step w e u kept permitted.1 hu) permitted.2 hrest

end World

end Rendezvous
