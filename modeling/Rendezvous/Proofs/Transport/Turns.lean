import Rendezvous.Proofs.Transport.Pool
/-!
# Tasks that take turns

A `Dispatcher` does for all its requests at once what their tasks in a `Pool` do one by one, and in
one of the orders in which they may do it. What both have in common is which requests wait, which
are in the transport and what has come of others (`Pool.View`), without regard to their order. A
step of a task changes this in one place (`Pool.Seen`) and a dispatcher in as many as there are
requests concerned, so a pool can come to whatever a dispatcher comes to
(`Dispatcher.Reached.follows`), also by going on for a while (`Dispatcher.Reached.advance`).
-/

namespace Rendezvous

namespace Reception

/-- A request comes to its answer in time, or to none for as long as it is given. -/
theorem within_cases (r : Reception) (wait : Duration) :
    (∃ delay ≤ wait, r = ⟨some delay, (r.within wait).2⟩) ∨
      ((∀ delay ≤ wait, r.delay ≠ some delay) ∧ (r.within wait).2 = .error (.timeout wait)) := by
  obtain ⟨delay?, delivery⟩ := r
  cases delay? with
  | none => exact .inr ⟨fun _ _ => nofun, rfl⟩
  | some delay =>
    by_cases hdelay : delay ≤ wait
    · refine .inl ⟨delay, hdelay, ?_⟩
      simp only [within, if_pos hdelay]
    · refine .inr ⟨fun _ hle heq => ?_, ?_⟩
      · cases heq
        exact hdelay hle
      · simp only [within, if_neg hdelay]

end Reception

namespace Flight

/-- What the receiver sees of a request in flight. -/
def completion (f : Flight) : Completion := ⟨f.errand.key, f.result⟩

/-- Whether one of the networks makes of the request what it comes to. -/
def Genuine (networks : Set Network) (f : Flight) : Prop :=
  ∃ network ∈ networks,
    f.result = ((network f.errand.endpoint f.errand.message).within f.errand.wait).2

end Flight

namespace Pool

/-- What has been given, sent and received. -/
structure History where
  dispatched : List Errand := []
  sent : List Errand := []
  received : List Completion := []

/-- What is under way, in whatever order. -/
structure View where
  waiting : Multiset Errand := 0
  flying : Multiset Errand := 0
  completed : Multiset Completion := 0

def history (events : List Event) (p : Pool) : History where
  dispatched := errands events
  sent := (launched events).map Ticket.errand
  received := p.received.map Report.completion

def view (p : Pool) : View where
  waiting := p.queued.map Ticket.errand
  flying := p.inside.map Ticket.errand
  completed := p.finished.map Report.completion

/-- What has passed after one more event. -/
def History.add (h : History) : Event → History
  | .dispatch errand => { h with dispatched := h.dispatched ++ [errand] }
  | .launch ticket => { h with sent := h.sent ++ [ticket.errand] }
  | .receive report => { h with received := h.received ++ [report.completion] }
  | _ => h

theorem Step.history {p p' : Pool} {x : Event} (step : Step p x p') (events : List Event) :
    history (events ++ [x]) p' = (history events p).add x := by
  cases step <;>
    simp [Pool.history, History.add, errands, launched, Event.errand?, Event.launched?, settle]

/-- Whether an answer, or that there is none, is what one of the networks makes of the request. -/
def Event.Genuine (networks : Set Network) : Event → Prop
  | answer r => ∃ network ∈ networks, ∃ delay ≤ r.ticket.errand.wait,
      network r.ticket.errand.endpoint r.ticket.errand.message = ⟨some delay, r.result⟩
  | expire t => ∃ network ∈ networks, ∀ delay ≤ t.errand.wait,
      (network t.errand.endpoint t.errand.message).delay ≠ some delay
  | _ => True

/-- Whether a pool with nothing in its channel can come to this on some networks. -/
def Seen (settings : DispatchSettings) (networks : Set Network) (h : History) (v : View) : Prop :=
  ∃ events p, Run settings events p ∧ (∀ x ∈ events, x.Genuine networks) ∧
    history events p = h ∧ p.view = v ∧ p.channel = []

theorem genuine_concat {networks : Set Network} {events : List Event} {x : Event}
    (h : ∀ y ∈ events, y.Genuine networks) (hx : x.Genuine networks) :
    ∀ y ∈ events ++ [x], y.Genuine networks :=
  List.forall_mem_append.mpr ⟨h, List.forall_mem_singleton.mpr hx⟩

theorem exists_cons_of_map_eq_cons {α β : Type} {f : α → β} {s : Multiset α} {t : Multiset β}
    {b : β} (h : s.map f = b ::ₘ t) :
    ∃ a others, s = a ::ₘ others ∧ f a = b ∧ others.map f = t := by
  classical
  obtain ⟨a, ha, hb, ht⟩ := (Multiset.map_eq_cons ..).mpr h
  exact ⟨a, s.erase a, (Multiset.cons_erase ha).symm, hb, ht⟩

section Seen

variable {settings : DispatchSettings} {networks : Set Network} {h : History}
  {waiting flying : Multiset Errand} {completed : Multiset Completion} {errand : Errand}

theorem seen_start (settings : DispatchSettings) (networks : Set Network) :
    Seen settings networks {} {} :=
  ⟨[], start settings, .start, nofun, rfl, rfl, rfl⟩

theorem Seen.bounded (seen : Seen settings networks h ⟨waiting, flying, completed⟩) :
    flying.card ≤ settings.permits := by
  obtain ⟨events, p, run, -, -, hview, -⟩ := seen
  cases hview
  have hpermits := run.conserved.permits
  show (p.inside.map Ticket.errand).card ≤ settings.permits
  rw [Multiset.card_map]
  omega

theorem Seen.dispatch (seen : Seen settings networks h ⟨waiting, flying, completed⟩)
    (errand : Errand) : Seen settings networks { h with dispatched := h.dispatched ++ [errand] }
      ⟨errand ::ₘ waiting, flying, completed⟩ := by
  obtain ⟨events, p, run, genuine, rfl, hview, hchannel⟩ := seen
  cases hview
  have step := Step.dispatch (p := p) errand
  refine ⟨_, _, run.step step, genuine_concat genuine trivial, step.history events, ?_, hchannel⟩
  simp only [view, Multiset.map_cons]

theorem Seen.launch (seen : Seen settings networks h ⟨errand ::ₘ waiting, flying, completed⟩)
    (free : flying.card < settings.permits) :
    Seen settings networks { h with sent := h.sent ++ [errand] }
      ⟨waiting, errand ::ₘ flying, completed⟩ := by
  obtain ⟨events, p, run, genuine, rfl, hview, hchannel⟩ := seen
  obtain ⟨hwaiting, rfl, rfl⟩ := View.mk.inj hview
  obtain ⟨ticket, others, waits, rfl, rfl⟩ := exists_cons_of_map_eq_cons hwaiting
  have hpermits := run.conserved.permits
  rw [Multiset.card_map] at free
  have step := Step.launch waits (by omega)
  refine ⟨_, _, run.step step, genuine_concat genuine trivial, step.history events, ?_, hchannel⟩
  simp only [view, Multiset.map_cons]

/-- A request comes to what a network makes of it within its time. -/
theorem Seen.settle (seen : Seen settings networks h ⟨waiting, errand ::ₘ flying, completed⟩)
    {network : Network} (mem : network ∈ networks) :
    Seen settings networks h ⟨waiting, flying,
      ⟨errand.key, ((network errand.endpoint errand.message).within errand.wait).2⟩ ::ₘ
        completed⟩ := by
  obtain ⟨events, p, run, genuine, rfl, hview, hchannel⟩ := seen
  obtain ⟨rfl, hflying, rfl⟩ := View.mk.inj hview
  obtain ⟨ticket, others, under, rfl, rfl⟩ := exists_cons_of_map_eq_cons hflying
  rcases Reception.within_cases (network ticket.errand.endpoint ticket.errand.message)
    ticket.errand.wait with ⟨delay, hdelay, hanswer⟩ | ⟨hsilent, hresult⟩
  · generalize (Reception.within _ _).2 = result at hanswer ⊢
    have step : Step p (.answer ⟨ticket, result⟩) _ := .answer under
    refine ⟨_, _, run.step step, genuine_concat genuine ⟨network, mem, delay, hdelay, hanswer⟩,
      step.history events, ?_, hchannel⟩
    simp only [view, Pool.settle, Multiset.map_cons, Report.completion]
  · rw [hresult]
    have step := Step.expire under
    refine ⟨_, _, run.step step, genuine_concat genuine ⟨network, mem, hsilent⟩,
      step.history events, ?_, hchannel⟩
    simp only [view, Pool.settle, Multiset.map_cons, Report.completion]

/-- A completion goes through the channel, which is empty before and after. -/
theorem Seen.receive {c : Completion}
    (seen : Seen settings networks h ⟨waiting, flying, c ::ₘ completed⟩) :
    Seen settings networks { h with received := h.received ++ [c] }
      ⟨waiting, flying, completed⟩ := by
  obtain ⟨events, p, run, genuine, rfl, hview, hchannel⟩ := seen
  obtain ⟨rfl, rfl, hcompleted⟩ := View.mk.inj hview
  obtain ⟨report, others, done, rfl, rfl⟩ := exists_cons_of_map_eq_cons hcompleted
  have room : p.channel.length < p.settings.capacity := by
    rw [hchannel]
    exact Nat.le_max_left ..
  have sent := Step.send done room
  rw [hchannel, List.nil_append] at sent
  have received := Step.receive (p := { p with finished := others, channel := [report] }) rfl
  refine ⟨_, _, (run.step sent).step received,
    genuine_concat (genuine_concat genuine trivial) trivial, ?_, rfl, rfl⟩
  rw [received.history, sent.history]
  rfl

theorem Seen.launches (sent : List Errand)
    (seen : Seen settings networks h ⟨sent + waiting, flying, completed⟩)
    (free : sent.length + flying.card ≤ settings.permits) :
    Seen settings networks { h with sent := h.sent ++ sent }
      ⟨waiting, sent + flying, completed⟩ := by
  induction sent generalizing h flying with
  | nil =>
    rw [Multiset.coe_nil, Multiset.zero_add] at seen ⊢
    rw [List.append_nil]
    exact seen
  | cons errand sent ih =>
    rw [List.length_cons] at free
    rw [← Multiset.cons_coe, Multiset.cons_add] at seen
    have launched := ih (seen.launch (by omega)) (by rw [Multiset.card_cons]; omega)
    rw [List.append_assoc, Multiset.add_cons, ← Multiset.cons_add, Multiset.cons_coe] at launched
    exact launched

theorem Seen.settles (landed : List Flight) (genuine : ∀ f ∈ landed, f.Genuine networks)
    (seen : Seen settings networks h
      ⟨waiting, (landed.map Flight.errand : List Errand) + flying, completed⟩) :
    Seen settings networks h
      ⟨waiting, flying, completed + (landed.map Flight.completion : List Completion)⟩ := by
  induction landed generalizing completed with
  | nil =>
    rw [List.map_nil, Multiset.coe_nil, Multiset.zero_add] at seen
    rw [List.map_nil, Multiset.coe_nil, Multiset.add_zero]
    exact seen
  | cons f landed ih =>
    obtain ⟨⟨network, mem, hresult⟩, genuine⟩ := List.forall_mem_cons.mp genuine
    rw [List.map_cons, ← Multiset.cons_coe, Multiset.cons_add] at seen
    have settled := seen.settle mem
    rw [← hresult] at settled
    rw [List.map_cons, ← Multiset.cons_coe, Multiset.add_cons, ← Multiset.cons_add]
    exact ih genuine settled

end Seen

end Pool

namespace Dispatcher

/-- What is under way in a dispatcher. -/
def view (d : Dispatcher) : Pool.View where
  waiting := d.waiting
  flying := d.flights.map Flight.errand
  completed := d.completed

/-- What a dispatcher can come to on some networks, and what has passed on the way. -/
inductive Reached (settings : DispatchSettings) (networks : Set Network) :
    Dispatcher → Pool.History → Prop
  | start : Reached settings networks { settings } {}
  | dispatch {d : Dispatcher} {h : Pool.History} (reached : Reached settings networks d h)
      (errand : Errand) : Reached settings networks (d.dispatch errand)
        { h with dispatched := h.dispatched ++ [errand] }
  | launch {d : Dispatcher} {h : Pool.History} (reached : Reached settings networks d h)
      {network : Network} (mem : network ∈ networks) (now : Instant) :
      Reached settings networks (d.launch network now).2
        { h with sent := h.sent ++ (d.launch network now).1 }
  | land {d : Dispatcher} {h : Pool.History} (reached : Reached settings networks d h)
      (now : Instant) : Reached settings networks (d.land now) h
  | receive {d d' : Dispatcher} {h : Pool.History} {c : Completion}
      (reached : Reached settings networks d h) (taken : d.receive = some (c, d')) :
      Reached settings networks d' { h with received := h.received ++ [c] }

/-- Whether a dispatcher has come to what a pool can come to. -/
structure Follows (settings : DispatchSettings) (networks : Set Network) (d : Dispatcher)
    (h : Pool.History) : Prop where
  unchanged : d.settings = settings
  genuine : ∀ f ∈ d.flights, f.Genuine networks
  seen : Pool.Seen settings networks h d.view

section Follows

variable {settings : DispatchSettings} {networks : Set Network} {d : Dispatcher} {h : Pool.History}

theorem Follows.dispatch (follows : Follows settings networks d h) (errand : Errand) :
    Follows settings networks (d.dispatch errand)
      { h with dispatched := h.dispatched ++ [errand] } := by
  refine ⟨follows.unchanged, follows.genuine, ?_⟩
  show Pool.Seen _ _ _ ⟨(d.waiting ++ [errand] : List Errand), _, _⟩
  rw [Pool.coe_concat]
  exact follows.seen.dispatch errand

theorem Follows.launch (follows : Follows settings networks d h) {network : Network}
    (mem : network ∈ networks) (now : Instant) :
    Follows settings networks (d.launch network now).2
      { h with sent := h.sent ++ (d.launch network now).1 } := by
  refine ⟨follows.unchanged, ?_, ?_⟩
  · intro f hf
    rcases mem_flights_launch hf with hf | ⟨errand, -, rfl⟩
    · exact follows.genuine f hf
    · exact ⟨network, mem, rfl⟩
  · have seen := follows.seen
    have hbounded := seen.bounded
    have hfree : d.free = settings.permits - d.flights.length := by
      rw [free, follows.unchanged]
    unfold view at seen hbounded
    rw [Multiset.coe_card, List.length_map] at hbounded
    rw [← List.take_append_drop d.free d.waiting, ← Multiset.coe_add] at seen
    have launched := seen.launches (d.waiting.take d.free) (by
      rw [Multiset.coe_card, List.length_map, List.length_take]
      omega)
    have hflying : ((d.launch network now).2.flights.map Flight.errand : Multiset Errand) =
        d.waiting.take d.free + d.flights.map Flight.errand := by
      rw [launch_snd, List.map_append, List.map_map, ← Multiset.coe_add, Multiset.add_comm]
      exact congrArg (fun sent : List Errand => (sent : Multiset Errand) + _) (List.map_id _)
    unfold view
    rw [hflying]
    exact launched

theorem Follows.land (follows : Follows settings networks d h) (now : Instant) :
    Follows settings networks (d.land now) h := by
  have hperm : (((d.flights.filter fun f => f.landsAt ≤ now).mergeSort
      fun a b => a.landsAt ≤ b.landsAt) ++ d.flights.filter fun f => ¬ f.landsAt ≤ now).Perm
      d.flights := by
    simp only [decide_not]
    exact ((List.mergeSort_perm ..).append_right _).trans (List.filter_append_perm ..)
  refine ⟨follows.unchanged, fun f hf => follows.genuine f (List.mem_of_mem_filter hf), ?_⟩
  have seen := follows.seen
  unfold view at seen
  rw [← Multiset.coe_eq_coe.mpr (hperm.map Flight.errand), List.map_append,
    ← Multiset.coe_add] at seen
  exact seen.settles _ fun f hf => follows.genuine f (hperm.subset (List.mem_append_left _ hf))

theorem Follows.receive (follows : Follows settings networks d h) {d' : Dispatcher}
    {c : Completion} (taken : d.receive = some (c, d')) :
    Follows settings networks d' { h with received := h.received ++ [c] } := by
  obtain ⟨rest, hcompleted, rfl⟩ := of_receive taken
  refine ⟨follows.unchanged, follows.genuine, Pool.Seen.receive ?_⟩
  have seen := follows.seen
  unfold view at seen
  rw [hcompleted] at seen
  exact seen

theorem Reached.follows (reached : Reached settings networks d h) :
    Follows settings networks d h := by
  induction reached with
  | start => exact ⟨rfl, nofun, Pool.seen_start settings networks⟩
  | dispatch _ errand ih => exact ih.dispatch errand
  | launch _ mem now ih => exact ih.launch mem now
  | land _ now ih => exact ih.land now
  | receive _ taken ih => exact ih.receive taken

end Follows

section Advance

variable {settings : DispatchSettings} {networks : Set Network} {d : Dispatcher} {h : Pool.History}

/-- All completions can be taken out at once. -/
theorem Reached.receiveAll (reached : Reached settings networks d h) :
    Reached settings networks { d with completed := [] }
      { h with received := h.received ++ d.completed } := by
  obtain ⟨settings, waiting, flights, completed⟩ := d
  induction completed generalizing h with
  | nil =>
    rw [List.append_nil]
    exact reached
  | cons c rest ih =>
    have received := ih (reached.receive rfl)
    rw [List.append_assoc] at received
    exact received

/-- What has passed after a dispatcher has gone on for a while. -/
def Progress.history (p : Progress) (h : Pool.History) : Pool.History :=
  { h with
    sent := h.sent ++ p.sent
    received := h.received ++ p.landed.map Prod.snd }

theorem Reached.advanceWithin {network : Network} (mem : network ∈ networks) (limit : Instant)
    (landings : Nat) {now : Instant} {p : Progress}
    (reached : Reached settings networks p.dispatcher (p.history h)) :
    let q := Dispatcher.advanceWithin network limit now p landings
    Reached settings networks q.dispatcher (q.history h) := by
  induction landings generalizing now p with
  | zero => exact reached
  | succ landings ih =>
    have launched := reached.launch mem now
    rw [Progress.history, List.append_assoc] at launched
    unfold Dispatcher.advanceWithin
    dsimp only
    split
    · exact launched
    · next due _ =>
      split
      · refine ih ?_
        have landed := (launched.land due).receiveAll
        rw [List.append_assoc] at landed
        rw [Progress.history, List.map_append, List.map_map]
        have hcompleted : ∀ cs : List Completion,
            cs.map (Prod.snd ∘ fun c => (due, c)) = cs := List.map_id
        rw [hcompleted]
        exact landed
      · exact launched

/-- Going on for a while is launching, landing and receiving. -/
theorem Reached.advance {network : Network} (reached : Reached settings networks d h)
    (mem : network ∈ networks) (now limit : Instant) :
    let p := d.advance network now limit
    Reached settings networks p.dispatcher (p.history h) := by
  refine Reached.advanceWithin mem limit _ (p := ⟨d, [], []⟩) ?_
  unfold Progress.history
  rw [List.append_nil, List.map_nil, List.append_nil]
  exact reached

end Advance

end Dispatcher

end Rendezvous
