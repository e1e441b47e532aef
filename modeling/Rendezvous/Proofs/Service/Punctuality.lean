import Rendezvous.Proofs.Service.Clock
/-!
# How long a silent component stays

When a lease runs out, its component is asked, and if nothing is heard of it in time it goes. But
the question is a request like any other. It waits for a permit behind the notifications that came
before it, and its time begins to run only with the permit. So a component goes when the lease, the
handshake and the time for which the question is held up have passed (`World.held`), and peers that
are slow to answer notifications make that time longer.

A lease is followed from event to event through the stages that it has left (`World.Stage`). For the
time that the question is held up there is a bound as soon as it waits (`World.Rounds`): all that is
under way comes to something within the longest time that anything is waited for, and then at least
one of the requests before it takes off.
-/

namespace Rendezvous

namespace World

variable {J : Type} [Journal J] {settings : MediatorSettings} {w v : World J} {e : Event}
  {id : ComponentId} {generation : Nat}

/-! ## What an event makes of one lease -/

theorem later_of_passes (passes : w.Passes e v) :
    w.mediator.leases.nextGeneration ≤ v.mediator.leases.nextGeneration := by
  cases passes with
  | quiet quiet => exact quiet.leases.later
  | conclude _ quiet _ => exact quiet.leases.later
  | _ => exact Nat.le_refl _

/-- Only when the clock goes on, time passes. -/
theorem now_of_passes (passes : w.Passes e v) :
    v.now = w.now ∨ ∃ i, e = .wait i ∧ v = { w with now := i } ∧ w.mayWait i = true := by
  cases passes with
  | wait h => exact .inr ⟨_, rfl, rfl, h⟩
  | _ => exact .inl rfl

/-- A lease that was armed before is as it was, or its component is to be asked. -/
theorem entry_of_passes (passes : w.Passes e v) {entry : LeaseEntry}
    (leased : v.mediator.leases.get? id = some entry)
    (old : entry.generation < w.mediator.leases.nextGeneration) :
    w.mediator.leases.get? id = some entry ∨
    ∃ entry', w.mediator.leases.get? id = some entry' ∧
      entry'.generation = entry.generation ∧ entry'.phase = .active ∧
      entry.phase = .handshaking ∧ v.now = w.now ∧
      ∃ q ∈ v.mediator.dispatcher.waiting, q.key = ⟨id, .leaseEnd entry.generation⟩ := by
  cases passes with
  | quiet quiet => exact .inl (quiet.leases.kept id entry leased old).1
  | conclude _ quiet _ => exact .inl (quiet.leases.kept id entry leased old).1
  | @ask x _ entry' c _ leased' hgeneration active =>
    replace leased : (w.mediator.leases.entries.insert x.component
        { entry' with phase := .handshaking }).get? id = some entry := leased
    rw [SortedMap.get?_insert] at leased
    split at leased
    · next hid =>
      cases leased
      rw [hid]
      refine .inr ⟨entry', leased', rfl, active, rfl, rfl, w.mediator.question x c,
        List.mem_append_right _ (List.mem_singleton_self _), ?_⟩
      rw [hgeneration]
      rfl
    · exact .inl leased
  | _ => exact .inl leased

/-- A lease that is armed runs from then on for as long as it was granted. -/
theorem armed_of_passes (regular : w.Regular settings) (passes : w.Passes e v)
    {entry : LeaseEntry} (leased : v.mediator.leases.get? id = some entry)
    (new : w.mediator.leases.nextGeneration ≤ entry.generation) :
    v.now = w.now ∧ entry.phase = .active ∧ entry.expiresAt = w.now + entry.lease.duration ∧
      ⟨entry.expiresAt, ⟨id, entry.generation⟩⟩ ∈ v.mediator.leases.timers := by
  have unarmed : ∀ entry', w.mediator.leases.get? id = some entry' →
      entry'.generation ≠ entry.generation := by
    intro entry' leased'
    have old := regular.numbered id entry' leased'
    omega
  cases passes with
  | quiet quiet => exact ⟨rfl, quiet.leases.started id entry leased new⟩
  | conclude _ quiet _ => exact ⟨rfl, quiet.leases.started id entry leased new⟩
  | @ask x _ entry' c _ leased' _ _ =>
    replace leased : (w.mediator.leases.entries.insert x.component
        { entry' with phase := .handshaking }).get? id = some entry := leased
    rw [SortedMap.get?_insert] at leased
    split at leased
    · next hid =>
      cases leased
      rw [hid] at unarmed
      exact absurd rfl (unarmed entry' leased')
    · exact absurd rfl (unarmed entry leased)
  | _ => exact absurd rfl (unarmed entry leased)

/-- Whether an expiry is to be handled at an instant that has not passed: its timer runs, or it is
in the mailbox. -/
def Ends (w : World J) (x : Expiry) (due : Instant) : Prop :=
  w.now ≤ due ∧ (⟨due, x⟩ ∈ w.mediator.leases.timers ∨ x ∈ w.expiries)

theorem Ends.passes {due : Instant} (regular : w.Regular settings)
    (ends : w.Ends ⟨id, generation⟩ due) (passes : w.Passes e v) {entry : LeaseEntry}
    (leased : v.mediator.leases.get? id = some entry) (hgeneration : entry.generation = generation)
    (old : generation < w.mediator.leases.nextGeneration) (active : entry.phase = .active) :
    v.Ends ⟨id, generation⟩ due := by
  obtain ⟨early, pending⟩ := ends
  have old' : entry.generation < w.mediator.leases.nextGeneration := by
    rw [hgeneration]
    exact old
  cases passes with
  | quiet quiet =>
    refine ⟨early, pending.imp_left fun running => ?_⟩
    refine (quiet.leases.kept id entry leased old').2 _ running ?_
    rw [hgeneration]
  | launch => exact ⟨early, pending⟩
  | land => exact ⟨early, pending⟩
  | fire =>
    refine ⟨early, ?_⟩
    rcases pending with running | fired
    · by_cases hdue : due ≤ w.now
      · refine .inr (List.mem_append_right _ ?_)
        have hmem : (⟨due, ⟨id, generation⟩⟩ : Timer) ∈ (w.mediator.leases.fire w.now).1 :=
          List.mem_mergeSort.mpr (List.mem_filter.mpr ⟨running, decide_eq_true hdue⟩)
        exact List.mem_map_of_mem (f := Timer.expiry) hmem
      · exact .inl (List.mem_filter.mpr ⟨running, decide_eq_true hdue⟩)
    · exact .inr (List.mem_append_left _ fired)
  | stale hexpiries stale =>
    refine ⟨early, pending.imp_right fun fired => ?_⟩
    rw [hexpiries] at fired
    rcases List.mem_cons.mp fired with rfl | fired
    · exact absurd active (stale entry leased hgeneration)
    · exact fired
  | @ask x _ entry' c hexpiries leased' _ _ =>
    refine ⟨early, pending.imp_right fun fired => ?_⟩
    rw [hexpiries] at fired
    rcases List.mem_cons.mp fired with rfl | fired
    · replace leased : (w.mediator.leases.entries.insert id
          { entry' with phase := .handshaking }).get? id = some entry := leased
      rw [SortedMap.get?_insert, if_pos rfl] at leased
      cases leased
      cases active
    · exact fired
  | conclude _ quiet _ =>
    refine ⟨early, pending.imp_left fun running => ?_⟩
    refine (quiet.leases.kept id entry leased old').2 _ running ?_
    rw [hgeneration]
  | wait hwait =>
    obtain ⟨idle, -, -, timers⟩ := of_mayWait hwait
    obtain ⟨-, expiries, -⟩ := idle_of_step? regular.running idle
    rcases pending with running | fired
    · exact ⟨timers _ running, .inl running⟩
    · rw [expiries] at fired
      cases fired

/-! ## What an event makes of one question -/

/-- Requests keep their places, except in a launch. -/
theorem waits_of_passes (passes : w.Passes e v) {q : Errand} {ahead : Nat}
    (waits : w.mediator.dispatcher.Waits q ahead) :
    v = w.launch ∨ (v.mediator.dispatcher.Waits q ahead ∧
      ∀ f ∈ v.mediator.dispatcher.flights, f ∈ w.mediator.dispatcher.flights) := by
  cases passes with
  | quiet quiet =>
    obtain ⟨errands, hdispatcher, -⟩ := quiet.dispatcher
    refine .inr ⟨waits.append (congrArg Dispatcher.waiting hdispatcher), fun f hf => ?_⟩
    replace hf := (congrArg Dispatcher.flights hdispatcher) ▸ hf
    exact hf
  | launch => exact .inl rfl
  | land => exact .inr ⟨waits, fun f hf => (List.mem_filter.mp hf).1⟩
  | ask => exact .inr ⟨waits.append rfl, fun f hf => hf⟩
  | conclude _ quiet _ =>
    obtain ⟨errands, hdispatcher, -⟩ := quiet.dispatcher
    refine .inr ⟨waits.append (congrArg Dispatcher.waiting hdispatcher), fun f hf => ?_⟩
    replace hf := (congrArg Dispatcher.flights hdispatcher) ▸ hf
    exact hf
  | _ => exact .inr ⟨waits, fun f hf => hf⟩

/-- Whether something comes of a request by an instant, or has come and is to be handled. -/
inductive Answering (w : World J) (key : CorrelationKey) (last : Instant) : Prop
  | flying {f : Flight} (h : f ∈ w.mediator.dispatcher.flights) (key : f.errand.key = key)
      (early : w.now ≤ f.landsAt) (soon : f.landsAt ≤ last)
  | landed {c : Completion} (h : c ∈ w.mediator.dispatcher.completed) (key : c.key = key)
      (early : w.now ≤ last)

omit [Journal J] in
theorem Answering.now_le {key : CorrelationKey} {last : Instant}
    (answering : w.Answering key last) : w.now ≤ last := by
  cases answering with
  | flying _ _ early soon => exact Nat.le_trans early soon
  | landed _ _ early => exact early

/-- What comes of the question about a lease ends the lease, and nothing else happens to it. -/
theorem Answering.passes {last : Instant} (regular : w.Regular settings)
    (answering : w.Answering ⟨id, .leaseEnd generation⟩ last) (passes : w.Passes e v)
    {entry entry' : LeaseEntry} (asked : w.mediator.leases.get? id = some entry)
    (hgeneration : entry.generation = generation) (hphase : entry.phase = .handshaking)
    (leased : v.mediator.leases.get? id = some entry')
    (hgeneration' : entry'.generation = generation) :
    v.Answering ⟨id, .leaseEnd generation⟩ last := by
  cases passes with
  | quiet quiet =>
    obtain ⟨errands, hdispatcher, -⟩ := quiet.dispatcher
    cases answering with
    | flying h key early soon =>
      exact .flying ((congrArg Dispatcher.flights hdispatcher).symm ▸ h) key early soon
    | landed h key early =>
      exact .landed ((congrArg Dispatcher.completed hdispatcher).symm ▸ h) key early
  | launch =>
    cases answering with
    | flying h key early soon => exact .flying (List.mem_append_left _ h) key early soon
    | landed h key early => exact .landed h key early
  | land =>
    cases answering with
    | flying h key early soon =>
      rcases Dispatcher.mem_land h w.now with stays | ⟨-, lands⟩
      · exact .flying stays key early soon
      · exact .landed lands key (Nat.le_trans early soon)
    | landed h key early => exact .landed (List.mem_append_left _ h) key early
  | conclude hcompleted quiet ends =>
    obtain ⟨errands, hdispatcher, -⟩ := quiet.dispatcher
    cases answering with
    | flying h key early soon =>
      exact .flying ((congrArg Dispatcher.flights hdispatcher).symm ▸ h) key early soon
    | landed h key early =>
      rw [hcompleted] at h
      rcases List.mem_cons.mp h with rfl | h
      · exact absurd hgeneration'
          (ends id generation entry entry' key asked hgeneration hphase leased)
      · exact .landed ((congrArg Dispatcher.completed hdispatcher).symm ▸ h) key early
  | wait hwait =>
    obtain ⟨idle, -, flights, -⟩ := of_mayWait hwait
    obtain ⟨-, -, completed⟩ := idle_of_step? regular.running idle
    cases answering with
    | flying h key _ soon => exact .flying h key (flights _ h) soon
    | landed h key _ =>
      rw [completed] at h
      cases h
  | _ =>
    cases answering with
    | flying h key early soon => exact .flying h key early soon
    | landed h key early => exact .landed h key early

omit [Journal J] in
/-- A question that takes off is waited for as long as the handshake may take. -/
theorem answering_of_takeOff {q : Errand} (regular : w.Regular settings)
    (waiting : q ∈ w.mediator.dispatcher.waiting) (key : q.key = ⟨id, .leaseEnd generation⟩)
    (taken : Dispatcher.takeOff w.network w.now q ∈ w.launch.mediator.dispatcher.flights) :
    w.launch.Answering ⟨id, .leaseEnd generation⟩
      (w.now + settings.lease.handshakeTimeout) := by
  obtain ⟨early, soon⟩ := Dispatcher.takeOff_landsAt w.network w.now q
  rw [(regular.timed.given q waiting id generation key).1] at soon
  exact .flying taken key early soon

omit [Journal J] in
theorem Answering.later {key : CorrelationKey} {last last' : Instant}
    (answering : w.Answering key last) (h : last ≤ last') : w.Answering key last' := by
  cases answering with
  | flying hf key early soon => exact .flying hf key early (Nat.le_trans soon h)
  | landed hc key early => exact .landed hc key (Nat.le_trans early h)

/-! ## The time for which a question is held up -/

/-- Whether the question at the end of a lease waits to be sent. -/
def waitsToAsk (w : World J) (id : ComponentId) (generation : Nat) : Bool :=
  w.mediator.dispatcher.waiting.any fun q => q.key = ⟨id, .leaseEnd generation⟩

/-- For how long the clock goes on in an event while the question at the end of a lease waits to be
sent. -/
def holdup (id : ComponentId) (generation : Nat) (w : World J) : Event → Duration
  | .wait i => if w.waitsToAsk id generation then ⟨i.nanos - w.now.nanos⟩ else ⟨0⟩
  | _ => ⟨0⟩

/-- For how long the question at the end of a lease waits to be sent in a run. -/
def held (id : ComponentId) (generation : Nat) (w : World J) : List Event → Duration
  | [] => ⟨0⟩
  | e :: rest =>
    w.holdup id generation e +
      match w.happen? e with
      | some v => v.held id generation rest
      | none => ⟨0⟩

/-- How far a lease is on the way to its end, or the component on the way to its answer, if the
lease is due at an instant and the question has been held up for some time. -/
inductive Stage (settings : MediatorSettings) (w : World J) (id : ComponentId) (generation : Nat)
    (due : Instant) (held : Duration) : LeasePhase → Prop
  | running (h : w.Ends ⟨id, generation⟩ due) : Stage settings w id generation due held .active
  | asking {q : Errand} (h : q ∈ w.mediator.dispatcher.waiting)
      (key : q.key = ⟨id, .leaseEnd generation⟩) (early : w.now ≤ due + held) :
      Stage settings w id generation due held .handshaking
  | answering (h : w.Answering ⟨id, .leaseEnd generation⟩
      (due + held + settings.lease.handshakeTimeout)) :
      Stage settings w id generation due held .handshaking

omit [Journal J] in
/-- In every stage the clock has not passed the end of the handshake. -/
theorem Stage.now_le {due : Instant} {held : Duration} {phase : LeasePhase}
    (stage : Stage settings w id generation due held phase) :
    w.now ≤ due + held + settings.lease.handshakeTimeout := by
  cases stage with
  | running ends => exact Nat.le_add_right_of_le (Nat.le_add_right_of_le ends.1)
  | asking _ _ early => exact Nat.le_add_right_of_le early
  | answering answering => exact answering.now_le

/-- Whether the lease of one arming is on the way to its end, as long as there is this lease. -/
structure Timely (settings : MediatorSettings) (w : World J) (id : ComponentId) (generation : Nat)
    (due : Instant) (held : Duration) : Prop where
  given : generation < w.mediator.leases.nextGeneration
  stage : ∀ entry, w.mediator.leases.get? id = some entry → entry.generation = generation →
    Stage settings w id generation due held entry.phase

theorem Stage.passes {due : Instant} {held : Duration} (regular : w.Regular settings)
    {entry : LeaseEntry} (stage : Stage settings w id generation due held entry.phase)
    (passes : w.Passes e v) (before : w.mediator.leases.get? id = some entry)
    (leased : v.mediator.leases.get? id = some entry) (hgeneration : entry.generation = generation)
    (old : generation < w.mediator.leases.nextGeneration) :
    Stage settings v id generation due (held + w.holdup id generation e) entry.phase := by
  generalize hphase : entry.phase = phase at stage ⊢
  have later : due + held ≤ due + (held + w.holdup id generation e) :=
    Nat.add_le_add_left (Nat.le_add_right _ _) _
  cases stage with
  | running ends => exact .running (ends.passes regular passes leased hgeneration old hphase)
  | @asking q waiting key early =>
    obtain ⟨ahead, waits⟩ := Dispatcher.exists_waits waiting
    rcases waits_of_passes passes waits with rfl | ⟨still, -⟩
    · rcases waits.launch w.network w.now with ⟨-, still⟩ | taken
      · exact .asking still.mem key (Nat.le_trans early later)
      · have soon := Nat.add_le_add_right (Nat.le_trans early later)
          settings.lease.handshakeTimeout.nanos
        exact .answering ((answering_of_takeOff regular waiting key taken).later soon)
    · refine .asking still.mem key ?_
      rcases now_of_passes passes with hnow | ⟨i, rfl, rfl, -⟩
      · rw [hnow]
        exact Nat.le_trans early later
      · -- The clock goes on while the question waits.
        have waitsToAsk : w.waitsToAsk id generation = true :=
          List.any_eq_true.mpr ⟨q, waiting, decide_eq_true key⟩
        have hheld : w.holdup id generation (.wait i) = ⟨i.nanos - w.now.nanos⟩ :=
          if_pos waitsToAsk
        rw [hheld]
        simp only [Duration.le_def, Duration.add_nanos] at early ⊢
        omega
  | answering answering =>
    have soon := Nat.add_le_add_right later settings.lease.handshakeTimeout.nanos
    have answered := answering.passes regular passes before hgeneration hphase leased hgeneration
    exact .answering (answered.later soon)

/-- A lease that is armed is due when its time has passed. -/
theorem Timely.of_armed (regular : w.Regular settings) (armed : w.happen? e = some v)
    {entry : LeaseEntry} (leased : v.mediator.leases.get? id = some entry)
    (fresh : w.mediator.leases.nextGeneration ≤ entry.generation) :
    Timely settings v id entry.generation (w.now + entry.lease.duration) ⟨0⟩ := by
  obtain ⟨hnow, active, expires, runs⟩ :=
    armed_of_passes regular (regular.passes armed) leased fresh
  refine ⟨(regular.happen armed).numbered id entry leased, fun entry' leased' _ => ?_⟩
  rw [leased] at leased'
  cases leased'
  rw [active, ← expires]
  refine .running ⟨?_, .inl runs⟩
  rw [hnow, expires]
  exact Nat.le_add_right _ _

theorem Timely.happen {due : Instant} {held : Duration} (regular : w.Regular settings)
    (timely : Timely settings w id generation due held) (h : w.happen? e = some v) :
    Timely settings v id generation due (held + w.holdup id generation e) := by
  have passes := regular.passes h
  refine ⟨Nat.lt_of_lt_of_le timely.given (later_of_passes passes), ?_⟩
  intro entry leased hgeneration
  have old : entry.generation < w.mediator.leases.nextGeneration := by
    rw [hgeneration]
    exact timely.given
  rcases entry_of_passes passes leased old with before | ⟨entry', before, hsame, active,
    handshaking, hnow, q, waiting, key⟩
  · exact (timely.stage entry before hgeneration).passes regular passes before leased hgeneration
      timely.given
  · -- The component is asked at the end of its lease.
    have stage := timely.stage entry' before (hsame.trans hgeneration)
    rw [active] at stage
    rw [handshaking]
    rw [hgeneration] at key
    cases stage with
    | running ends =>
      refine .asking waiting key ?_
      rw [hnow]
      exact Nat.le_add_right_of_le ends.1

theorem Timely.follow {due : Instant} {held : Duration} (regular : w.Regular settings)
    (timely : Timely settings w id generation due held) {events : List Event}
    (followed : w.follow? events = some v) :
    Timely settings v id generation due (held + w.held id generation events) := by
  induction events generalizing w held with
  | nil =>
    cases followed
    exact timely
  | cons e rest ih =>
    obtain ⟨u, hu, hrest⟩ := Option.bind_eq_some_iff.mp followed
    have timely' := ih (regular.happen hu) (timely.happen regular hu) hrest
    unfold World.held
    rw [hu]
    have hheld : held + (w.holdup id generation e + u.held id generation rest) =
        held + w.holdup id generation e + u.held id generation rest :=
      congrArg Duration.mk (Nat.add_assoc _ _ _).symm
    rw [hheld]
    exact timely'

/-! ## A question behind others -/

/-- Whether a request waits behind so many others, all that is under way has come to something by
the end of the round, and one more round for each of the others ends by an instant. -/
structure Rounds (settings : MediatorSettings) (w : World J) (q : Errand) (ahead : Nat)
    (round last : Instant) : Prop where
  waits : w.mediator.dispatcher.Waits q ahead
  early : w.now ≤ round
  landing : ∀ f ∈ w.mediator.dispatcher.flights, f.landsAt ≤ round
  within : round.nanos + ahead * settings.longestWait.nanos ≤ last.nanos

omit [Journal J] in
/-- A launch that sends other requests before a question begins a new round for them. -/
theorem Rounds.launch {q : Errand} {ahead : Nat} {round last : Instant}
    (regular : w.Regular settings) (rounds : w.Rounds settings q ahead round last)
    (free : w.mediator.dispatcher.free ≤ ahead)
    (waits : w.launch.mediator.dispatcher.Waits q (ahead - w.mediator.dispatcher.free)) :
    ∃ ahead' round', w.launch.Rounds settings q ahead' round' last := by
  obtain ⟨-, early, landing, within⟩ := rounds
  by_cases hfree : w.mediator.dispatcher.free = 0
  · refine ⟨_, round, waits, early, fun f hf => ?_, ?_⟩
    · replace hf : f ∈ (w.mediator.dispatcher.launch w.network w.now).2.flights := hf
      rw [Dispatcher.launch_snd, hfree] at hf
      simp only [List.take_zero, List.map_nil, List.append_nil] at hf
      exact landing f hf
    · rw [hfree]
      exact within
  · refine ⟨_, round + settings.longestWait, waits, Nat.le_add_right_of_le early, ?_, ?_⟩
    · intro f hf
      rcases Dispatcher.mem_flights_launch hf with hf | ⟨q', hq', rfl⟩
      · exact Nat.le_add_right_of_le (landing f hf)
      · have soon := (Dispatcher.takeOff_landsAt w.network w.now q').2
        have bounded := regular.timed.bounded q' hq'
        rw [Duration.le_def, Duration.add_nanos] at soon
        rw [Duration.le_def] at early bounded
        rw [Duration.le_def, Duration.add_nanos]
        omega
    · -- The rounds of those that are sent have come to one.
      have hrounds : (ahead - w.mediator.dispatcher.free + 1) * settings.longestWait.nanos ≤
          ahead * settings.longestWait.nanos := Nat.mul_le_mul_right _ (by omega)
      rw [Nat.add_mul, Nat.one_mul] at hrounds
      rw [Duration.add_nanos]
      omega

/-- A request that waits comes nearer to its turn, or it takes off before the rounds are over. -/
theorem Rounds.passes {q : Errand} {ahead : Nat} {round last : Instant}
    (regular : w.Regular settings) (rounds : w.Rounds settings q ahead round last)
    (passes : w.Passes e v) :
    (∃ ahead' round', v.Rounds settings q ahead' round' last) ∨
    (v = w.launch ∧
      Dispatcher.takeOff w.network w.now q ∈ w.launch.mediator.dispatcher.flights) := by
  rcases waits_of_passes passes rounds.waits with rfl | ⟨still, flights⟩
  · rcases rounds.waits.launch w.network w.now with ⟨free, still⟩ | taken
    · exact .inl (rounds.launch regular free still)
    · exact .inr ⟨rfl, taken⟩
  · refine .inl ⟨ahead, round, still, ?_, fun f hf => rounds.landing f (flights f hf),
      rounds.within⟩
    rcases now_of_passes passes with hnow | ⟨i, rfl, rfl, hwait⟩
    · rw [hnow]
      exact rounds.early
    · -- The clock stops at the first landing, and there is one as long as requests wait.
      obtain ⟨idle, -, landings, -⟩ := of_mayWait hwait
      obtain ⟨underway, -, -⟩ := idle_of_step? regular.running idle
      have hflights := underway (List.ne_nil_of_mem rounds.waits.mem)
      obtain ⟨f, hf⟩ := List.exists_mem_of_ne_nil _ hflights
      exact Nat.le_trans (landings f hf) (rounds.landing f hf)

/-- Whether a component is being asked at the end of one arming of its lease, as long as there is
this lease, and something comes of it by an instant. -/
structure Queued (settings : MediatorSettings) (w : World J) (id : ComponentId) (generation : Nat)
    (last : Instant) : Prop where
  given : generation < w.mediator.leases.nextGeneration
  stage : ∀ entry, w.mediator.leases.get? id = some entry → entry.generation = generation →
    entry.phase = .handshaking ∧
      (w.Answering ⟨id, .leaseEnd generation⟩ (last + settings.lease.handshakeTimeout) ∨
        ∃ q ahead round, q.key = ⟨id, .leaseEnd generation⟩ ∧
          w.Rounds settings q ahead round last)

theorem Queued.happen {last : Instant} (regular : w.Regular settings)
    (queued : w.Queued settings id generation last) (h : w.happen? e = some v) :
    v.Queued settings id generation last := by
  have passes := regular.passes h
  refine ⟨Nat.lt_of_lt_of_le queued.given (later_of_passes passes), ?_⟩
  intro entry leased hgeneration
  have old : entry.generation < w.mediator.leases.nextGeneration := by
    rw [hgeneration]
    exact queued.given
  rcases entry_of_passes passes leased old with before | ⟨entry', before, hsame, active, -⟩
  · obtain ⟨handshaking, stage⟩ := queued.stage entry before hgeneration
    refine ⟨handshaking, ?_⟩
    rcases stage with answering | ⟨q, ahead, round, key, rounds⟩
    · exact .inl (answering.passes regular passes before hgeneration handshaking leased
        hgeneration)
    · rcases rounds.passes regular passes with ⟨ahead', round', rounds'⟩ | ⟨rfl, taken⟩
      · exact .inr ⟨q, ahead', round', key, rounds'⟩
      · have soon : w.now ≤ last := by
          have early := rounds.early
          have within := rounds.within
          rw [Duration.le_def] at early ⊢
          omega
        have answering := answering_of_takeOff regular rounds.waits.mem key taken
        exact .inl (answering.later (Nat.add_le_add_right soon _))
  · -- It was being asked already.
    obtain ⟨handshaking, -⟩ := queued.stage entry' before (hsame.trans hgeneration)
    rw [active] at handshaking
    cases handshaking

theorem Queued.follow {last : Instant} (regular : w.Regular settings)
    (queued : w.Queued settings id generation last) {events : List Event}
    (followed : w.follow? events = some v) : v.Queued settings id generation last := by
  have kept : ∀ (x : World J) (e : Event) (y : World J),
      x.Regular settings ∧ x.Queued settings id generation last → x.happen? e = some y →
      y.Regular settings ∧ y.Queued settings id generation last := by
    rintro x e y ⟨regular, queued⟩ h
    exact ⟨regular.happen h, queued.happen regular h⟩
  exact (kept_follow kept ⟨regular, queued⟩ followed).2

omit [Journal J] in
/-- From any time on at which a question waits behind so many others, it is one round for each of
them and another one for what is under way. -/
theorem Queued.of_waits {q : Errand} {ahead : Nat} (regular : w.Regular settings)
    (key : q.key = ⟨id, .leaseEnd generation⟩) (waits : w.mediator.dispatcher.Waits q ahead) :
    w.Queued settings id generation
      ⟨w.now.nanos + (ahead + 1) * settings.longestWait.nanos⟩ := by
  refine ⟨(regular.timed.given q waits.mem id generation key).2, ?_⟩
  intro entry leased hgeneration
  refine ⟨regular.timed.asking q waits.mem id generation key entry leased hgeneration, ?_⟩
  refine .inr ⟨q, ahead, w.now + settings.longestWait, key, waits, Nat.le_add_right _ _,
    regular.timed.landing, ?_⟩
  show w.now.nanos + settings.longestWait.nanos + ahead * settings.longestWait.nanos ≤
    w.now.nanos + (ahead + 1) * settings.longestWait.nanos
  rw [Nat.add_mul, Nat.one_mul]
  omega

omit [Journal J] in
/-- As long as the lease is there, the rounds and the handshake are not over. -/
theorem Queued.now_le {last : Instant} (queued : w.Queued settings id generation last)
    {entry : LeaseEntry} (leased : w.mediator.leases.get? id = some entry)
    (hgeneration : entry.generation = generation) :
    w.now ≤ last + settings.lease.handshakeTimeout := by
  obtain ⟨-, answering | ⟨q, ahead, round, -, rounds⟩⟩ := queued.stage entry leased hgeneration
  · exact answering.now_le
  · have early := rounds.early
    have within := rounds.within
    rw [Duration.le_def] at early ⊢
    rw [Duration.add_nanos]
    omega

end World

/-! ## The end of a silent component -/

namespace Mediator

variable {J : Type} [Journal J]

/-- Whether a component that is not registered owns no subscription. -/
def Unowned (m : Mediator J) (id : ComponentId) : Prop :=
  m.directory.contains id = false → ∀ s ∈ m.subscriptions.list, s.owner ≠ id

/-- A subscription was there before and its owner has not departed, or it is new. -/
theorem owned_perform {m : Mediator J} (named : m.directory.Named) (now : Instant) (o : Operation)
    {s : Subscription} (h : s ∈ (m.perform now o).subscriptions.list) :
    (s ∈ m.subscriptions.list ∧ m.departed (m.perform now o) s.owner = false) ∨
      ∃ r, o = .subscribe r ∧ r.subscriber = s.owner := by
  by_cases ho : o.concern = .subscriptions
  · have stays := m.departed_of_concern now ho s.owner
    cases o with
    | subscribe r =>
      rw [perform_subscribe] at h
      rcases m.subscribe_cases r with ⟨e, heq⟩ | ⟨s', hs', -, heq⟩
      · rw [heq] at h
        exact .inl ⟨h, stays⟩
      · rw [heq] at h
        rcases List.mem_append.mp h with h | h
        · exact .inl ⟨h, stays⟩
        · rw [List.mem_singleton.mp h]
          obtain ⟨callback, -, hs'⟩ := Option.bind_eq_some_iff.mp hs'
          obtain ⟨query, -, hs'⟩ := Option.map_eq_some_iff.mp hs'
          exact .inr ⟨r, rfl, congrArg Subscription.owner hs'⟩
    | unsubscribe id =>
      rw [perform_unsubscribe] at h
      rcases m.unsubscribe_cases id with ⟨-, heq⟩ | ⟨s', -, -, t, ht, -, heq⟩
      · rw [heq] at h
        exact .inl ⟨h, stays⟩
      · rw [heq] at h
        replace h : s ∈ t.list := h
        rw [ht] at h
        exact .inl ⟨List.mem_of_mem_eraseP h, stays⟩
    | _ => cases ho
  · rw [(m.perform_effect now named o).subscriptions_list named ho, List.mem_filter] at h
    obtain ⟨before, stays⟩ := h
    exact .inl ⟨before, by simpa using stays⟩

/-- A component that departs leaves no subscription behind. -/
theorem Unowned.perform {m : Mediator J} {id : ComponentId} (unowned : m.Unowned id)
    (named : m.directory.Named) (now : Instant) {o : Operation}
    (courteous : ∀ r, o = .subscribe r → r.subscriber = id → m.directory.contains id = true) :
    (m.perform now o).Unowned id := by
  intro unregistered s hs howner
  rcases owned_perform named now o hs with ⟨before, stays⟩ | ⟨r, rfl, hsubscriber⟩
  · rw [howner] at stays
    unfold departed at stays
    rw [unregistered, Bool.not_false, Bool.and_true] at stays
    exact unowned stays s before howner
  · have stays := m.departed_of_concern now (o := .subscribe r) rfl id
    unfold departed at stays
    rw [unregistered, courteous r rfl (hsubscriber.trans howner)] at stays
    cases stays

end Mediator

namespace World

variable {J : Type} [Journal J] {settings : MediatorSettings} {w v : World J}

/-- Whether a component does not subscribe while it is not registered. -/
def isCourteous (id : ComponentId) (w : World J) : Event → Bool
  | .operate (.subscribe r) => r.subscriber != id || w.mediator.directory.contains id
  | _ => true

theorem unowned_happen (regular : w.Regular settings) {id : ComponentId} {e : Event}
    (unowned : w.mediator.Unowned id) (courteous : isCourteous id w e = true)
    (h : w.happen? e = some v) : v.mediator.Unowned id := by
  have performed : ∀ o : Mediator.Operation, (∀ r, o ≠ .subscribe r) →
      (w.mediator.perform w.now o).Unowned id := by
    intro o ho
    exact unowned.perform regular.matched.named w.now fun r hr => absurd hr (ho r)
  cases e with
  | operate o =>
    simp only [happen?] at h
    split at h
    · cases h
      refine unowned.perform regular.matched.named w.now fun r hr hsubscriber => ?_
      rw [hr] at courteous
      simpa [isCourteous, hsubscriber] using courteous
    · cases h
  | launch =>
    cases h
    exact unowned
  | land =>
    cases h
    rw [land_of_listening regular.listening]
    exact unowned
  | fire =>
    cases h
    exact unowned
  | expire =>
    simp only [happen?] at h
    split at h
    · cases h
    · next x expiries _ =>
      cases h
      exact performed (.handleExpiry x) fun r hr => by cases hr
  | conclude =>
    simp only [happen?] at h
    split at h
    · cases h
    · next c dispatcher _ =>
      cases h
      have received : Mediator.Unowned { w.mediator with dispatcher } id := unowned
      exact received.perform regular.matched.named w.now (o := .handleCompletion c)
        fun r hr => by cases hr
  | reroute network =>
    cases h
    exact unowned
  | wait i =>
    simp only [happen?] at h
    split at h
    · cases h
      exact unowned
    · cases h

/-- A component whose lease is armed once and never again is gone, with all subscriptions but those
that it makes while it is not registered, when the lease, the handshake and the time for which the
question at its end waits for a permit have passed. How long that can take is known as soon as the
question waits: one longest wait for each request before it, and another one for those that are
under way. -/
theorem evicted_in_time (settings : MediatorSettings) (journal : J) (cursorNames : Nat → String)
    (subscriptionNames : Nat → SubscriptionId) (network : Network) {before after : List Event}
    {arming : Event} {u : World J} {id : ComponentId} {entry : LeaseEntry}
    (reached : follow? { mediator := .new settings journal cursorNames subscriptionNames, network }
      before = some u)
    (armed : u.happen? arming = some w) (leased : w.mediator.leases.get? id = some entry)
    (fresh : u.mediator.leases.nextGeneration ≤ entry.generation)
    (followed : w.follow? after = some v)
    (once : ∀ entry', v.mediator.leases.get? id = some entry' →
      entry'.generation = entry.generation)
    (late : u.now + entry.lease.duration + w.held id entry.generation after +
        settings.lease.handshakeTimeout < v.now ∨
      ∃ first rest x q ahead, after = first ++ rest ∧ w.follow? first = some x ∧
        q.key = ⟨id, .leaseEnd entry.generation⟩ ∧ x.mediator.dispatcher.Waits q ahead ∧
        x.now.nanos + (ahead + 1) * settings.longestWait.nanos +
          settings.lease.handshakeTimeout.nanos < v.now.nanos) :
    v.mediator.directory.get? id = none ∧ v.mediator.leases.get? id = none ∧
      (w.along (isCourteous id) after = true →
        ∀ s ∈ v.mediator.subscriptions.list, s.owner ≠ id) := by
  have regular := (regular_new settings journal cursorNames subscriptionNames network).follow
    reached
  have regular_w := regular.happen armed
  have regular_v := regular_w.follow followed
  -- If the lease were still there, it would be too early.
  have unleased : v.mediator.leases.get? id = none := by
    cases still : v.mediator.leases.get? id with
    | none => rfl
    | some entry' =>
      have hgeneration := once entry' still
      rcases late with late | ⟨first, rest, x, q, ahead, rfl, hx, key, waits, late⟩
      · have timely := (Timely.of_armed regular armed leased fresh).follow regular_w followed
        have early := (timely.stage entry' still hgeneration).now_le
        simp only [Duration.le_def, Duration.lt_def, Duration.add_nanos] at early late
        omega
      · rw [follow?_append, hx] at followed
        have regular_x := regular_w.follow hx
        have queued := Queued.of_waits regular_x key waits
        have early := (queued.follow regular_x followed).now_le still hgeneration
        simp only [Duration.le_def, Duration.add_nanos] at early
        omega
  have unknown : v.mediator.directory.contains id = false := by
    rw [regular_v.matched.leased, unleased]
    rfl
  refine ⟨?_, unleased, fun courteous => ?_⟩
  · rw [Directory.contains_eq_isSome] at unknown
    simpa using unknown
  · -- Whoever has a lease is registered, so nothing is asked of the subscriptions at first.
    have unowned : w.mediator.Unowned id := by
      intro unregistered
      rw [regular_w.matched.leased, leased] at unregistered
      cases unregistered
    have kept : ∀ (x : World J) (e : Event) (y : World J),
        x.Regular settings ∧ x.mediator.Unowned id → isCourteous id x e = true →
        x.happen? e = some y → y.Regular settings ∧ y.mediator.Unowned id := by
      rintro x e y ⟨regular, unowned⟩ courteous h
      exact ⟨regular.happen h, unowned_happen regular unowned courteous h⟩
    exact (kept_along kept ⟨regular_w, unowned⟩ courteous followed).2 unknown

/-- A service that sends one request at a time, on a network where nothing is ever heard of. -/
def loneService : World NoJournal where
  mediator := .new
    { lease := { handshakeTimeout := .ofMillis 100 }
      dispatch := { maxInFlight := 1, requestTimeout := .ofSeconds 30 } }
    ⟨⟩ Text.ofNat fun n => ⟨.supply 0 n⟩
  network := fun endpoint _ => ⟨none, .error (.unreachable endpoint)⟩

/-- A component with no more than a name registers. -/
def comes (id : String) (lease : Duration) : Event :=
  .operate (.register { id := ⟨id⟩, kind := .widget } (some ⟨lease⟩))

/-- The lamp is to be told of other components. It is told of a desk, and half a second later its
lease ends. -/
def deskComes : List Event :=
  [.operate (.subscribe ⟨⟨"lamp"⟩, ⟨"localhost", 7000⟩, "newComponent", false,
      some (.kindIs .widget)⟩),
    .wait (.ofMillis 500), comes "desk" (.ofSeconds 60), .launch, .wait (.ofSeconds 1), .fire,
    .expire]

/-- Telling the lamp is given up, then it is asked and is given up itself. -/
def lampGivenUp : List Event :=
  [.wait (.ofMillis 30500), .land, .conclude, .launch, .wait (.ofMillis 30600), .land, .conclude,
    .wait (.ofMillis 31200)]

/-- The question to the lamp waits for the permit of the notification, so the lamp goes later by the
half minute that the notification takes but for the half second that it had begun before. -/
theorem evicted_in_time_lamp :
    let lamp : ComponentId := ⟨"lamp"⟩
    ∃ w x v : World NoJournal, loneService.happen? (comes "lamp" (.ofSeconds 1)) = some w ∧
      w.follow? deskComes = some x ∧ x.now = .ofSeconds 1 ∧
      (∃ q, q.key = ⟨lamp, .leaseEnd 1⟩ ∧ x.mediator.dispatcher.Waits q 0) ∧
      w.follow? (deskComes ++ lampGivenUp) = some v ∧ v.now = .ofMillis 31200 ∧
      w.held lamp 1 (deskComes ++ lampGivenUp) = .ofMillis 29500 ∧
      v.mediator.directory.get? lamp = none ∧
      ∀ s ∈ v.mediator.subscriptions.list, s.owner ≠ lamp := by
  intro lamp
  let entry : LeaseEntry := ⟨⟨.ofSeconds 1⟩, .ofSeconds 1, 1, .active⟩
  let w : World NoJournal := { loneService with mediator :=
    (loneService.mediator.register ⟨0⟩ { id := lamp, kind := .widget } (some ⟨.ofSeconds 1⟩)).2 }
  have reached : loneService.follow? [] = some loneService := rfl
  have armed : loneService.happen? (comes "lamp" (.ofSeconds 1)) = some w := rfl
  have leased : w.mediator.leases.get? lamp = some entry := by decide +kernel
  have asked : (w.follow? deskComes).map (fun x => (x.now,
      x.mediator.dispatcher.waiting.map Errand.key)) =
      some (.ofSeconds 1, [⟨lamp, .leaseEnd 1⟩]) := by
    decide +kernel
  have goes : (w.follow? (deskComes ++ lampGivenUp)).map (fun v => (v.now,
      v.mediator.leases.get? lamp)) = some (.ofMillis 31200, none) := by
    decide +kernel
  have hheld : w.held lamp 1 (deskComes ++ lampGivenUp) = .ofMillis 29500 := by decide +kernel
  obtain ⟨x, hx, hasked⟩ := Option.map_eq_some_iff.mp asked
  obtain ⟨v, followed, hgoes⟩ := Option.map_eq_some_iff.mp goes
  obtain ⟨hnow_x, hwaiting⟩ := Prod.mk.inj hasked
  obtain ⟨hnow, unleased⟩ := Prod.mk.inj hgoes
  obtain ⟨q, hq, key⟩ := List.map_eq_singleton_iff.mp hwaiting
  have waits : x.mediator.dispatcher.Waits q 0 := ⟨[], [], hq, rfl⟩
  have once : ∀ entry', v.mediator.leases.get? lamp = some entry' →
      entry'.generation = entry.generation := by
    intro entry' h
    rw [unleased] at h
    cases h
  have late : loneService.now + entry.lease.duration +
      w.held lamp 1 (deskComes ++ lampGivenUp) +
      loneService.mediator.settings.lease.handshakeTimeout < v.now := by
    rw [hheld, hnow]
    decide
  have courteous : w.along (isCourteous lamp) (deskComes ++ lampGivenUp) = true := by
    decide +kernel
  obtain ⟨unregistered, -, unsubscribed⟩ := evicted_in_time _ _ _ _ _ reached armed leased
    (Nat.le_refl 1) followed once (.inl late)
  exact ⟨w, x, v, armed, hx, hnow_x, ⟨q, key, waits⟩, followed, hnow, hheld, unregistered,
    unsubscribed courteous⟩

/-- The lamp is still there when its lease and a handshake are over. -/
example : ((loneService.happen? (comes "lamp" (.ofSeconds 1))).bind fun w =>
    w.follow? (deskComes ++ [.wait (.ofMillis 1101)])).map (fun v =>
      (v.now, v.mediator.directory.contains ⟨"lamp"⟩)) = some (.ofMillis 1101, true) := by
  decide +kernel

end World

end Rendezvous
