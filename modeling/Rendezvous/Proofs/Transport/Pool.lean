import Mathlib.Algebra.Order.Group.Multiset
import Mathlib.Data.Multiset.Range
import Rendezvous.Proofs.Transport.Dispatcher
/-!
# Requests side by side

Requests that nobody waits for have tasks of their own, which share a number of permits and a
channel of bounded length. Here these tasks are taken apart into what they do between two waits
(`Pool.Step`): a task gets a permit, with which its request is handed to the transport; there is an
answer, or it has waited long enough, upon which the permit is given back; its completion finds a
place in the channel; and the receiver, who stays, takes one out. All this happens in any order. A
task waits for nothing between getting its permit and handing its request over, nor between the end
of the request and giving the permit back, so a request is in the transport as long as its task has
the permit.

Nothing gets lost on this way (`Pool.Conserved`): what has been dispatched waits or has been handed
over, what has been handed over is in the transport or has come to something, and what has come to
something waits for its place, has it, or has been received. So every request is handed over at most
once and has at most one completion, which is its own, and exactly one in the end (`Pool.Exact`).
-/

namespace Rendezvous

/-- A request by the number of its dispatch. -/
structure Ticket where
  number : Nat
  errand : Errand
deriving DecidableEq

/-- What a request came to. -/
structure Report where
  ticket : Ticket
  result : Delivery

/-- A report as the receiver sees it. -/
def Report.completion (r : Report) : Completion := ⟨r.ticket.errand.key, r.result⟩

/-- Tasks by how far they are, and the channel into which they put their completions. -/
structure Pool where
  settings : DispatchSettings
  /-- How many requests have been dispatched. -/
  dispatched : Nat := 0
  /-- The permits that are left. -/
  available : Nat
  /-- The requests that wait for a permit. -/
  queued : Multiset Ticket := 0
  /-- The requests in the transport. -/
  inside : Multiset Ticket := 0
  /-- What has come to something and waits for a place in the channel. -/
  finished : Multiset Report := 0
  channel : List Report := []
  received : List Report := []

namespace Pool

/-- A pool to which nothing has been given. -/
def start (settings : DispatchSettings) : Pool := { settings, available := settings.permits }

/-- The requests under way, as the permits tell: all but those that are left are held. -/
def inFlight (p : Pool) : Nat := p.settings.permits - p.available

/-- What happens in a pool. -/
inductive Event
  | dispatch (errand : Errand)
  /-- A request has its permit and is handed to the transport. -/
  | launch (ticket : Ticket)
  /-- The transport has a result of its own in time. -/
  | answer (report : Report)
  /-- A request has been waited for long enough. -/
  | expire (ticket : Ticket)
  /-- A completion is put into the channel. -/
  | send (report : Report)
  | receive (report : Report)

namespace Event

/-- The request that is dispatched. -/
def errand? : Event → Option Errand
  | dispatch errand => some errand
  | _ => none

/-- The request that is handed over. -/
def launched? : Event → Option Ticket
  | launch ticket => some ticket
  | _ => none

/-- What a request comes to. -/
def settled? : Event → Option Report
  | answer report => some report
  | expire ticket => some ⟨ticket, .error (.timeout ticket.errand.wait)⟩
  | _ => none

end Event

/-- A request has come to something, and gives its permit back. -/
def settle (p : Pool) (others : Multiset Ticket) (report : Report) : Pool :=
  { p with
    available := p.available + 1
    inside := others
    finished := report ::ₘ p.finished }

/-- One step of any task or of the receiver, or a dispatch. -/
inductive Step (p : Pool) : Event → Pool → Prop
  | dispatch (errand : Errand) :
      Step p (.dispatch errand) { p with
        dispatched := p.dispatched + 1
        queued := ⟨p.dispatched, errand⟩ ::ₘ p.queued }
  | launch {ticket : Ticket} {others : Multiset Ticket} (waits : p.queued = ticket ::ₘ others)
      (free : 0 < p.available) :
      Step p (.launch ticket) { p with
        available := p.available - 1
        queued := others
        inside := ticket ::ₘ p.inside }
  | answer {report : Report} {others : Multiset Ticket}
      (under : p.inside = report.ticket ::ₘ others) :
      Step p (.answer report) (p.settle others report)
  | expire {ticket : Ticket} {others : Multiset Ticket} (under : p.inside = ticket ::ₘ others) :
      Step p (.expire ticket)
        (p.settle others ⟨ticket, .error (.timeout ticket.errand.wait)⟩)
  | send {report : Report} {others : Multiset Report} (done : p.finished = report ::ₘ others)
      (room : p.channel.length < p.settings.capacity) :
      Step p (.send report) { p with finished := others, channel := p.channel ++ [report] }
  | receive {report : Report} {rest : List Report} (first : p.channel = report :: rest) :
      Step p (.receive report) { p with channel := rest, received := p.received ++ [report] }

/-- What can happen from the start on, and what has become of the pool. -/
inductive Run (settings : DispatchSettings) : List Event → Pool → Prop
  | start : Run settings [] (start settings)
  | step {events : List Event} {p p' : Pool} {x : Event} (run : Run settings events p)
      (step : Step p x p') : Run settings (events ++ [x]) p'

/-! ## What a history says -/

/-- The requests that have been dispatched, in order. -/
def errands (events : List Event) : List Errand := events.filterMap Event.errand?

/-- The requests that have been handed to the transport. -/
def launched (events : List Event) : List Ticket := events.filterMap Event.launched?

/-- What requests have come to. -/
def settled (events : List Event) : List Report := events.filterMap Event.settled?

/-- Requests with their numbers. -/
def tickets (errands : List Errand) : List Ticket := errands.zipIdx.map fun e => ⟨e.2, e.1⟩

theorem mem_tickets {es : List Errand} {t : Ticket} :
    t ∈ tickets es ↔ es[t.number]? = some t.errand := by
  unfold tickets
  rw [List.mem_map]
  constructor
  · rintro ⟨e, he, rfl⟩
    exact List.mem_zipIdx_iff_getElem?.mp he
  · intro h
    exact ⟨(t.errand, t.number), List.mem_zipIdx_iff_getElem?.mpr h, rfl⟩

theorem tickets_append (es : List Errand) (errand? : Option Errand) :
    tickets (es ++ errand?.toList) = tickets es ++ errand?.toList.map (Ticket.mk es.length) := by
  unfold tickets
  rw [List.zipIdx_append, List.map_append, Nat.zero_add]
  cases errand? <;> rfl

theorem numbers_tickets (es : List Errand) :
    (tickets es).map Ticket.number = List.range es.length := by
  unfold tickets
  rw [List.map_map, List.range_eq_range']
  exact List.zipIdx_map_snd 0 es

theorem filterMap_concat {α : Type} (f : Event → Option α) (events : List Event) (x : Event) :
    (events ++ [x]).filterMap f = events.filterMap f ++ (f x).toList := by
  rw [List.filterMap_append]
  cases h : f x with
  | none => rw [List.filterMap_cons_none h, List.filterMap_nil, Option.toList_none]
  | some a => rw [List.filterMap_cons_some h, List.filterMap_nil, Option.toList_some]

theorem coe_concat {α : Type} (xs : List α) (a : α) :
    ((xs ++ [a] : List α) : Multiset α) = a ::ₘ (xs : Multiset α) :=
  Multiset.coe_eq_coe.mpr (List.perm_append_singleton a xs)

/-! ## Nothing gets lost -/

/-- Where everything is that has been dispatched. -/
structure Conserved (settings : DispatchSettings) (events : List Event) (p : Pool) : Prop where
  unchanged : p.settings = settings
  numbered : p.dispatched = (errands events).length
  permits : p.available + p.inside.card = settings.permits
  room : p.channel.length ≤ settings.capacity
  dispatched : (tickets (errands events) : Multiset Ticket) = p.queued + launched events
  launched : (launched events : Multiset Ticket) =
    p.inside + (settled events : Multiset Report).map Report.ticket
  settled : (settled events : Multiset Report) = p.finished + (p.channel + p.received)

theorem conserved_start (settings : DispatchSettings) : Conserved settings [] (start settings) where
  unchanged := rfl
  numbered := rfl
  permits := rfl
  room := Nat.zero_le _
  dispatched := rfl
  launched := rfl
  settled := rfl

/-- What a step does, as its event tells: what leaves one place is at the next. -/
structure Moves (p : Pool) (x : Event) (p' : Pool) : Prop where
  unchanged : p'.settings = p.settings
  numbered : p'.dispatched = p.dispatched + x.errand?.toList.length
  permits : p'.available + p'.inside.card = p.available + p.inside.card
  room : p.channel.length ≤ p.settings.capacity → p'.channel.length ≤ p.settings.capacity
  queued : (x.errand?.toList.map (Ticket.mk p.dispatched) : List Ticket) + p.queued =
    x.launched?.toList + p'.queued
  inside : x.launched?.toList + p.inside =
    (x.settled?.toList : Multiset Report).map Report.ticket + p'.inside
  finished : x.settled?.toList + (p.finished + (p.channel + p.received)) =
    p'.finished + (p'.channel + p'.received)

/-- A request that comes to something leaves the transport for those that wait for their places. -/
theorem moves_settle {p : Pool} {x : Event} {report : Report} {others : Multiset Ticket}
    (under : p.inside = report.ticket ::ₘ others) (unnumbered : x.errand? = none)
    (unlaunched : x.launched? = none) (settles : x.settled? = some report) :
    Moves p x (p.settle others report) := by
  refine ⟨rfl, ?_, ?_, id, ?_, ?_, ?_⟩
  · rw [unnumbered]
    rfl
  · show p.available + 1 + others.card = p.available + p.inside.card
    rw [under, Multiset.card_cons]
    omega
  · rw [unnumbered, unlaunched]
    rfl
  · rw [unlaunched, settles]
    simp [settle, under]
  · rw [settles]
    simp [settle]

theorem Step.moves {p p' : Pool} {x : Event} (h : Step p x p') : Moves p x p' := by
  cases h with
  | dispatch errand =>
    refine ⟨rfl, rfl, rfl, id, ?_, rfl, zero_add _⟩
    simp [Event.errand?, Event.launched?]
  | @launch ticket others waits free =>
    refine ⟨rfl, rfl, ?_, id, ?_, ?_, zero_add _⟩
    · show p.available - 1 + (ticket ::ₘ p.inside).card = p.available + p.inside.card
      rw [Multiset.card_cons]
      omega
    · simp [Event.errand?, Event.launched?, waits]
    · simp [Event.launched?, Event.settled?]
  | answer under => exact moves_settle under rfl rfl rfl
  | expire under => exact moves_settle under rfl rfl rfl
  | @send report others done room =>
    refine ⟨rfl, rfl, rfl, fun _ => ?_, rfl, rfl, ?_⟩
    · rw [List.length_append]
      exact room
    · refine (zero_add _).trans ?_
      rw [coe_concat, done, Multiset.cons_add, Multiset.cons_add, Multiset.add_cons]
  | @receive report rest first =>
    refine ⟨rfl, rfl, rfl, fun room => ?_, rfl, rfl, ?_⟩
    · rw [first, List.length_cons] at room
      exact Nat.le_of_succ_le room
    · refine (zero_add _).trans ?_
      rw [coe_concat, first, ← Multiset.cons_coe, Multiset.cons_add, Multiset.add_cons,
        Multiset.add_cons, Multiset.add_cons]

theorem Conserved.step {settings : DispatchSettings} {events : List Event} {p p' : Pool}
    {x : Event} (h : Conserved settings events p) (step : Step p x p') :
    Conserved settings (events ++ [x]) p' := by
  have moves := step.moves
  have herrands : errands (events ++ [x]) = errands events ++ x.errand?.toList :=
    filterMap_concat ..
  have hlaunched : Pool.launched (events ++ [x]) = Pool.launched events ++ x.launched?.toList :=
    filterMap_concat ..
  have hsettled : Pool.settled (events ++ [x]) = Pool.settled events ++ x.settled?.toList :=
    filterMap_concat ..
  refine ⟨moves.unchanged.trans h.unchanged, ?_, moves.permits.trans h.permits, ?_, ?_, ?_, ?_⟩
  · rw [herrands, List.length_append, ← h.numbered]
    exact moves.numbered
  · rw [← h.unchanged]
    exact moves.room (h.unchanged ▸ h.room)
  · rw [herrands, hlaunched, tickets_append, ← h.numbered, ← Multiset.coe_add, ← Multiset.coe_add,
      h.dispatched, add_right_comm, add_comm p.queued, moves.queued]
    ac_rfl
  · rw [hlaunched, hsettled, ← Multiset.coe_add, ← Multiset.coe_add, Multiset.map_add, h.launched,
      add_right_comm, add_comm p.inside, moves.inside]
    ac_rfl
  · rw [hsettled, ← Multiset.coe_add, h.settled, add_comm]
    exact moves.finished

theorem Run.conserved {settings : DispatchSettings} {events : List Event} {p : Pool}
    (run : Run settings events p) : Conserved settings events p := by
  induction run with
  | start => exact conserved_start settings
  | step _ hstep ih => exact ih.step hstep

/-! ## Every request for itself -/

/-- Whether every request has come to something and every completion has been received. -/
structure Drained (p : Pool) : Prop where
  queued : p.queued = 0
  inside : p.inside = 0
  finished : p.finished = 0
  channel : p.channel = []

/-- How many steps are left until all that has been dispatched has been received. -/
def work (p : Pool) : Nat :=
  4 * p.queued.card + 3 * p.inside.card + 2 * p.finished.card + p.channel.length

/-- Whether a completion is the one of a dispatched request: it has its key, and what the transport
came to or that nothing came for as long as the request was waited for. -/
def Own (events : List Event) (r : Report) : Prop :=
  ∃ errand, (errands events)[r.ticket.number]? = some errand ∧ r.completion.key = errand.key ∧
    (.answer r ∈ events ∨
      .expire r.ticket ∈ events ∧ r.completion.result = .error (.timeout errand.wait))

/-- What holds of a pool after a history. -/
structure Exact (settings : DispatchSettings) (events : List Event) (p : Pool) : Prop where
  bounded : p.inside.card ≤ max 1 settings.maxInFlight
  counted : p.inFlight = p.inside.card
  /-- Nothing is handed to the transport twice, -/
  handedOnce : ((launched events).map Ticket.number).Nodup
  /-- nor anything that has not been dispatched. -/
  handed : ∀ t ∈ launched events, (errands events)[t.number]? = some t.errand
  /-- Nothing has two completions, -/
  reportedOnce : ((settled events).map fun r => r.ticket.number).Nodup
  /-- and each is that of a request. -/
  own : ∀ r ∈ settled events, Own events r
  /-- They are received, in the channel, or wait for a place in it, and nothing else is. -/
  kept : p.finished + (p.channel + p.received : Multiset Report) = settled events
  /-- In the end there is one for each request. -/
  complete : p.Drained →
    (p.received.map fun r => r.ticket.number).Perm (List.range (errands events).length)
  /-- Until then there is a step to take, -/
  progress : p.Drained ∨ ∃ x p', x.errand? = none ∧ Step p x p'
  /-- and every step brings the end nearer. -/
  ends : ∀ x p', Step p x p' → x.errand? = none → p'.work < p.work

section Laws

variable {settings : DispatchSettings} {events : List Event} {p p' : Pool} {x : Event}

theorem nodup_numbers {es : List Errand} {ts : Multiset Ticket} (h : ts ≤ tickets es) :
    (ts.map Ticket.number).Nodup := by
  have hnumbers := Multiset.map_le_map (f := Ticket.number) h
  rw [Multiset.map_coe, numbers_tickets] at hnumbers
  exact Multiset.nodup_of_le hnumbers (Multiset.coe_nodup.mpr List.nodup_range)

theorem Conserved.launched_le (h : Conserved settings events p) :
    (Pool.launched events : Multiset Ticket) ≤ tickets (errands events) := by
  rw [h.dispatched]
  exact Multiset.le_add_left ..

theorem Conserved.settled_le (h : Conserved settings events p) :
    (Pool.settled events : Multiset Report).map Report.ticket ≤ tickets (errands events) := by
  refine le_trans ?_ h.launched_le
  rw [h.launched]
  exact Multiset.le_add_left ..

theorem Conserved.own (h : Conserved settings events p) {r : Report}
    (hr : r ∈ Pool.settled events) : Own events r := by
  have hticket : r.ticket ∈ tickets (errands events) :=
    Multiset.mem_of_le h.settled_le (Multiset.mem_map_of_mem Report.ticket hr)
  refine ⟨r.ticket.errand, mem_tickets.mp hticket, rfl, ?_⟩
  obtain ⟨x, hx, hsettled⟩ := List.mem_filterMap.mp hr
  cases x with
  | answer report =>
    cases hsettled
    exact .inl hx
  | expire ticket =>
    cases hsettled
    exact .inr ⟨hx, rfl⟩
  | _ => cases hsettled

/-- What is nowhere else has been received. -/
theorem Conserved.complete (h : Conserved settings events p) (drained : p.Drained) :
    (p.received.map fun r => r.ticket.number).Perm (List.range (errands events).length) := by
  have hsettled := h.settled
  have hlaunched := h.launched
  have hdispatched := h.dispatched
  rw [drained.finished, drained.channel, Multiset.coe_nil, Multiset.zero_add,
    Multiset.zero_add] at hsettled
  rw [drained.inside, Multiset.zero_add, hsettled, Multiset.map_coe] at hlaunched
  rw [drained.queued, Multiset.zero_add, hlaunched] at hdispatched
  have hperm := ((Multiset.coe_eq_coe.mp hdispatched).map Ticket.number).symm
  rw [numbers_tickets, List.map_map] at hperm
  exact hperm

theorem Conserved.progress (h : Conserved settings events p) :
    p.Drained ∨ ∃ x p', x.errand? = none ∧ Step p x p' := by
  by_cases hchannel : p.channel = []
  · rcases Multiset.empty_or_exists_mem p.finished with hfinished | ⟨report, hreport⟩
    · rcases Multiset.empty_or_exists_mem p.inside with hinside | ⟨ticket, hticket⟩
      · rcases Multiset.empty_or_exists_mem p.queued with hqueued | ⟨ticket, hticket⟩
        · exact .inl ⟨hqueued, hinside, hfinished, hchannel⟩
        · -- Nothing is in the transport, so all permits are left.
          obtain ⟨others, waits⟩ := Multiset.exists_cons_of_mem hticket
          have hpermits := h.permits
          rw [hinside, Multiset.card_zero] at hpermits
          have hpositive : 0 < settings.permits := Nat.le_max_left ..
          exact .inr ⟨.launch ticket, _, rfl, .launch waits (by omega)⟩
      · obtain ⟨others, under⟩ := Multiset.exists_cons_of_mem hticket
        exact .inr ⟨.expire ticket, _, rfl, .expire under⟩
    · obtain ⟨others, done⟩ := Multiset.exists_cons_of_mem hreport
      have room : p.channel.length < p.settings.capacity := by
        rw [hchannel]
        exact Nat.le_max_left ..
      exact .inr ⟨.send report, _, rfl, .send done room⟩
  · obtain ⟨report, rest, first⟩ := List.exists_cons_of_ne_nil hchannel
    exact .inr ⟨.receive report, _, rfl, .receive first⟩

theorem Step.work_lt (h : Step p x p') (unnumbered : x.errand? = none) : p'.work < p.work := by
  unfold work
  cases h with
  | dispatch errand => cases unnumbered
  | launch waits _ =>
    rw [waits]
    simp only [Multiset.card_cons]
    omega
  | answer under =>
    rw [under]
    simp only [settle, Multiset.card_cons]
    omega
  | expire under =>
    rw [under]
    simp only [settle, Multiset.card_cons]
    omega
  | send done _ =>
    rw [done]
    simp only [Multiset.card_cons, List.length_append, List.length_singleton]
    omega
  | receive first =>
    rw [first]
    simp only [List.length_cons]
    omega

theorem Run.exact (run : Run settings events p) : Exact settings events p := by
  have h := run.conserved
  have hpermits := h.permits
  refine ⟨?_, ?_, ?_, ?_, ?_, fun r hr => h.own hr, h.settled.symm, h.complete, h.progress,
    fun x p' hstep => hstep.work_lt⟩
  · show p.inside.card ≤ settings.permits
    omega
  · unfold inFlight
    rw [h.unchanged]
    omega
  · exact Multiset.coe_nodup.mp (nodup_numbers h.launched_le)
  · exact fun t ht => mem_tickets.mp (Multiset.mem_of_le h.launched_le ht)
  · have hnumbers := nodup_numbers h.settled_le
    rw [Multiset.map_map, Multiset.map_coe] at hnumbers
    exact Multiset.coe_nodup.mp hnumbers

end Laws

end Pool

end Rendezvous
