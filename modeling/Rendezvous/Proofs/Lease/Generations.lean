import Mathlib.Data.List.Basic
import Mathlib.Data.List.Induction
import Rendezvous.Proofs.Lease.Table
/-!
# Generations of leases

A table of leases under any calls, made by whoever likes to, for any components and any generations.
`LeaseTable.record` is what was called and answered, and `LeaseTable.handshakes_ordered` says of
every such record that each generation has one life: it is given to one component, its expiry is
taken note of at most once, it is resolved at most once and only after that, and neither happens
once the component has been given another lease or has lost this one.

Of what a call does only four kinds matter (`LeaseTable.Does`). From them it follows for every
generation that what was once true of the lease that has it stays true (`LeaseTable.Said`): others
do not get it, a component that has been asked stays asked, and what is over stays over.
-/

namespace Rendezvous

namespace LeaseTable

/-! ## Calls and their answers -/

/-- A call of the table. -/
inductive Call
  | arm (id : ComponentId) (requested : Option Lease)
  | cancel (id : ComponentId)
  | beginHandshake (x : Expiry)
  | resolve (x : Expiry) (outcome : HandshakeOutcome)
  /-- The timers that are due fire. -/
  | fire

/-- What a call answers. -/
inductive Answer
  | armed (entry : LeaseEntry)
  | cancelled (entry : Option LeaseEntry)
  | begun (begins : Bool)
  | resolved (resolution : Resolution)
  | fired (timers : List Timer)

/-- A call that was made, and its answer. -/
structure Event where
  call : Call
  answer : Answer

/-- What a call answers, and the table after it. -/
def call (now : Instant) (t : LeaseTable) : Call → Answer × LeaseTable
  | .arm id requested => (.armed (t.arm now id requested).1, (t.arm now id requested).2)
  | .cancel id => (.cancelled (t.cancel id).1, (t.cancel id).2)
  | .beginHandshake x => (.begun (t.beginHandshake x).1, (t.beginHandshake x).2)
  | .resolve x outcome => (.resolved (t.resolve now x outcome).1, (t.resolve now x outcome).2)
  | .fire => (.fired (t.fire now).1, (t.fire now).2)

/-- What was called and answered, and the table after it. -/
def record (t : LeaseTable) (calls : List (Instant × Call)) : List Event × LeaseTable :=
  calls.foldl (fun r c => (r.1 ++ [⟨c.2, (r.2.call c.1 c.2).1⟩], (r.2.call c.1 c.2).2)) ([], t)

theorem record_concat (t : LeaseTable) (calls : List (Instant × Call)) (c : Instant × Call) :
    t.record (calls ++ [c]) =
      ((t.record calls).1 ++ [⟨c.2, ((t.record calls).2.call c.1 c.2).1⟩],
        ((t.record calls).2.call c.1 c.2).2) := by
  rw [record, List.foldl_append]
  rfl

/-- Whether a call answers that it is not the time for it. -/
def Answer.Refuses : Answer → Prop
  | begun begins => begins = false
  | resolved resolution => resolution = .stale
  | _ => False

instance : DecidablePred Answer.Refuses
  | .begun begins => inferInstanceAs (Decidable (begins = false))
  | .resolved resolution => inferInstanceAs (Decidable (resolution = .stale))
  | .armed _ | .cancelled _ | .fired _ => inferInstanceAs (Decidable False)

/-- What is refused changes nothing. -/
theorem call_of_refuses {now : Instant} {t : LeaseTable} {c : Call}
    (h : (t.call now c).1.Refuses) : (t.call now c).2 = t := by
  cases c with
  | beginHandshake x =>
    rcases t.beginHandshake_cases x with hbegin | ⟨e, -, -, -, hbegin⟩
    · exact congrArg Prod.snd hbegin
    · have refused : (t.beginHandshake x).1 = false := h
      rw [hbegin] at refused
      cases refused
  | resolve x outcome =>
    have refused : (t.resolve now x outcome).1 = .stale := h
    rcases t.resolve_cases now x outcome with
      ⟨-, hresolve⟩ | ⟨-, ⟨lease, -, hresolve⟩ | ⟨-, reason, hresolve⟩⟩
    · exact congrArg Prod.snd hresolve
    · rw [hresolve] at refused
      cases refused
    · rw [hresolve] at refused
      cases refused
  | _ => exact absurd h not_false

/-! ## What a call does -/

/-- What can be done to the leases. -/
inductive Deed
  /-- A component is given a lease. -/
  | give (id : ComponentId) (e : LeaseEntry)
  /-- The lease of a component ends, if it has one. -/
  | finish (id : ComponentId)
  /-- A component whose lease has run out is being asked. -/
  | ask (x : Expiry)
  | nothing
deriving DecidableEq

namespace Event

/-- What an event does, by its call and the answer. -/
def deed : Event → Deed
  | ⟨.arm id _, .armed e⟩ => .give id e
  | ⟨.resolve x _, .resolved (.renewed e)⟩ => .give x.component e
  | ⟨.resolve x _, .resolved (.evict _)⟩ => .finish x.component
  | ⟨.cancel id, _⟩ => .finish id
  | ⟨.beginHandshake x, .begun true⟩ => .ask x
  | _ => .nothing

/-- The generation that an event gives. -/
def given? (ev : Event) : Option Nat :=
  match ev.deed with
  | .give _ e => some e.generation
  | _ => none

/-- Whether an event resolves a handshake. -/
def Resolves (x : Expiry) (ev : Event) : Prop :=
  ∃ outcome resolution, ev = ⟨.resolve x outcome, .resolved resolution⟩ ∧ resolution ≠ .stale

/-- Whether after an event a component does not have the lease that it had before. -/
def Supersedes (id : ComponentId) (ev : Event) : Prop :=
  (∃ e, ev.deed = .give id e) ∨ ev.deed = .finish id

end Event

/-- What a deed makes of a table. -/
inductive Does (t : LeaseTable) : Deed → LeaseTable → Prop
  /-- The lease has a generation that was never given before. -/
  | give {u : LeaseTable} {id : ComponentId} {e : LeaseEntry} (active : e.phase = .active)
      (number : e.generation = t.nextGeneration) (next : u.nextGeneration = t.nextGeneration + 1)
      (get : ∀ id', u.get? id' = if id' = id then some e else t.get? id') : Does t (.give id e) u
  | finish {u : LeaseTable} {id : ComponentId} (next : u.nextGeneration = t.nextGeneration)
      (get : ∀ id', u.get? id' = if id' = id then none else t.get? id') : Does t (.finish id) u
  | ask {u : LeaseTable} {x : Expiry} {e : LeaseEntry} (found : t.get? x.component = some e)
      (number : e.generation = x.generation) (active : e.phase = .active)
      (next : u.nextGeneration = t.nextGeneration)
      (get : ∀ id', u.get? id' =
        if id' = x.component then some { e with phase := .handshaking } else t.get? id') :
      Does t (.ask x) u
  | nothing {u : LeaseTable} (next : u.nextGeneration = t.nextGeneration)
      (get : ∀ id', u.get? id' = t.get? id') : Does t .nothing u

theorem does_arm (now : Instant) (t : LeaseTable) (id : ComponentId) (requested : Option Lease) :
    t.Does (.give id (t.arm now id requested).1) (t.arm now id requested).2 :=
  .give rfl rfl rfl (t.get?_arm now id requested)

/-- A call does what its event says. -/
theorem does_call (now : Instant) (t : LeaseTable) (c : Call) :
    t.Does (Event.deed ⟨c, (t.call now c).1⟩) (t.call now c).2 := by
  cases c with
  | arm id requested => exact does_arm now t id requested
  | cancel id => exact .finish (t.nextGeneration_cancel id) (t.get?_cancel id)
  | fire => exact .nothing rfl fun _ => rfl
  | beginHandshake x =>
    simp only [call]
    rcases t.beginHandshake_cases x with h | ⟨e, hfound, hnumber, hactive, h⟩
    · rw [h]
      exact .nothing rfl fun _ => rfl
    · rw [h]
      exact .ask hfound hnumber hactive rfl fun id =>
        SortedMap.get?_insert t.entries x.component id _
  | resolve x outcome =>
    simp only [call]
    rcases t.resolve_cases now x outcome with ⟨-, h⟩ | ⟨-, ⟨lease, -, h⟩ | ⟨-, reason, h⟩⟩
    · rw [h]
      exact .nothing rfl fun _ => rfl
    · rw [h]
      exact does_arm now t x.component (some lease)
    · rw [h]
      exact .finish rfl (t.get?_drop x.component)

/-- Only the handshake that is awaited is resolved, and then the lease that it was about is gone. -/
theorem awaiting_of_resolves {now : Instant} {t : LeaseTable} {c : Call} {x : Expiry}
    (h : Event.Resolves x ⟨c, (t.call now c).1⟩) :
    t.isAwaiting x = true ∧ Event.Supersedes x.component ⟨c, (t.call now c).1⟩ := by
  obtain ⟨outcome, resolution, hevent, hfresh⟩ := h
  obtain ⟨rfl, hanswer⟩ := Event.mk.inj hevent
  rw [hanswer]
  have hresolution : (t.resolve now x outcome).1 = resolution := Answer.resolved.inj hanswer
  rcases t.resolve_cases now x outcome with
    ⟨-, h⟩ | ⟨awaiting, ⟨lease, -, h⟩ | ⟨-, reason, h⟩⟩
  · rw [h] at hresolution
    exact absurd hresolution.symm hfresh
  · rw [h] at hresolution
    subst hresolution
    exact ⟨awaiting, .inl ⟨_, rfl⟩⟩
  · rw [h] at hresolution
    subst hresolution
    exact ⟨awaiting, .inr rfl⟩

/-! ## What stays true of a generation -/

/-- Whether a generation has been given, and something holds of the lease that has it, if there
still is one. -/
def Said (t : LeaseTable) (generation : Nat) (P : ComponentId → LeaseEntry → Prop) : Prop :=
  generation < t.nextGeneration ∧
    ∀ id e, t.get? id = some e → e.generation = generation → P id e

/-- No other lease gets the generation, so what holds of the one that has it goes on to hold, unless
it is something that ends when the component is asked. -/
theorem Said.does {t u : LeaseTable} {generation : Nat} {P : ComponentId → LeaseEntry → Prop}
    (said : t.Said generation P) {deed : Deed} (does : t.Does deed u)
    (lasts : ∀ id e, P id e → P id { e with phase := .handshaking }) : u.Said generation P := by
  obtain ⟨given, holds⟩ := said
  cases does with
  | give active number next get =>
    refine ⟨by omega, fun id e h hgeneration => ?_⟩
    rw [get] at h
    split at h
    · cases h
      omega
    · exact holds id e h hgeneration
  | finish next get =>
    refine ⟨by omega, fun id e h hgeneration => ?_⟩
    rw [get] at h
    split at h
    · cases h
    · exact holds id e h hgeneration
  | ask found number active next get =>
    refine ⟨by omega, fun id e h hgeneration => ?_⟩
    rw [get] at h
    split at h
    · next hid =>
      cases h
      rw [hid]
      exact lasts _ _ (holds _ _ found hgeneration)
    · exact holds id e h hgeneration
  | nothing next get =>
    refine ⟨by omega, fun id e h hgeneration => ?_⟩
    rw [get] at h
    exact holds id e h hgeneration

/-- Whether nobody but a component has a generation. -/
def HeldBy (t : LeaseTable) (id : ComponentId) (generation : Nat) : Prop :=
  t.Said generation fun id' _ => id' = id

/-- Whether the component that has a generation is being asked. -/
def Asked (t : LeaseTable) (generation : Nat) : Prop :=
  t.Said generation fun _ e => e.phase = .handshaking

/-- Whether nobody has a generation any more. -/
def Over (t : LeaseTable) (generation : Nat) : Prop := t.Said generation fun _ _ => False

section Deeds

variable {t u : LeaseTable} {deed : Deed} {generation : Nat}

theorem HeldBy.does {id : ComponentId} (held : t.HeldBy id generation) (does : t.Does deed u) :
    u.HeldBy id generation :=
  Said.does held does fun _ _ h => h

theorem Asked.does (asked : t.Asked generation) (does : t.Does deed u) : u.Asked generation :=
  Said.does asked does fun _ _ _ => rfl

theorem Over.does (ended : t.Over generation) (does : t.Does deed u) : u.Over generation :=
  Said.does ended does fun _ _ h => h

/-- A component that is given a lease is the only one with its generation. -/
theorem heldBy_give {id : ComponentId} {e : LeaseEntry} (numbered : t.Numbered)
    (does : t.Does (.give id e) u) : u.HeldBy id e.generation := by
  cases does with
  | give active number next get =>
    refine ⟨by omega, fun id' e' h hgeneration => ?_⟩
    rw [get] at h
    split at h
    · next hid => exact hid
    · have old := numbered id' e' h
      omega

/-- A generation is over once the one component that has it is given another lease or has lost
it. -/
theorem HeldBy.over_of_superseded {id : ComponentId} (held : t.HeldBy id generation)
    (does : t.Does deed u) (superseded : (∃ e, deed = .give id e) ∨ deed = .finish id) : u.Over generation := by
  refine ⟨(held.does does).1, fun id' e' h hgeneration => ?_⟩
  obtain rfl : id' = id := (held.does does).2 id' e' h hgeneration
  rcases superseded with ⟨e, rfl⟩ | rfl
  · cases does with
    | give active number next get =>
      rw [get, if_pos rfl] at h
      cases h
      have given := held.1
      omega
  · cases does with
    | finish next get =>
      rw [get, if_pos rfl] at h
      cases h

/-- A component that begins to be asked is asked for its generation. -/
theorem HeldBy.asked {x : Expiry} (held : t.HeldBy x.component x.generation)
    (does : t.Does (.ask x) u) : u.Asked x.generation := by
  refine ⟨(held.does does).1, fun id' e' h hgeneration => ?_⟩
  have hid : id' = x.component := (held.does does).2 id' e' h hgeneration
  cases does with
  | ask found number active next get =>
    rw [get, if_pos hid] at h
    cases h
    rfl

end Deeds

/-! ## Which lease stands -/

/-- Whether a lease is the last one that a component was given, and it has not lost it since. It is
being asked if it has been asked since. -/
def Stands (events : List Event) (id : ComponentId) (e : LeaseEntry) : Prop :=
  ∃ before ev later armed, events = before ++ ev :: later ∧ ev.deed = .give id armed ∧
    (∀ ev' ∈ later, ¬ ev'.Supersedes id) ∧
    ((e = armed ∧ ∀ ev' ∈ later, ev'.deed ≠ .ask ⟨id, armed.generation⟩) ∨
      (e = { armed with phase := .handshaking } ∧
        ∃ ev' ∈ later, ev'.deed = .ask ⟨id, armed.generation⟩))

theorem not_stands_nil (id : ComponentId) (e : LeaseEntry) : ¬ Stands [] id e := by
  rintro ⟨before, ev, later, armed, h, -⟩
  exact absurd h (by simp)

section Stands

variable {events : List Event} {ev : Event} {id : ComponentId} {e : LeaseEntry}

/-- An event among others of which one is the last is that one, or it comes before. -/
theorem split_concat {before later : List Event} {ev' : Event}
    (h : events ++ [ev] = before ++ ev' :: later) :
    (ev' = ev ∧ later = []) ∨ ∃ rest, later = rest ++ [ev] ∧ events = before ++ ev' :: rest := by
  rcases List.eq_nil_or_concat later with rfl | ⟨rest, last, rfl⟩
  · obtain ⟨-, hev⟩ := List.append_inj' h rfl
    exact .inl ⟨(List.cons.inj hev).1.symm, rfl⟩
  · rw [List.concat_eq_append, ← List.cons_append, ← List.append_assoc] at h
    obtain ⟨hevents, hlast⟩ := List.append_inj' h rfl
    obtain rfl := (List.cons.inj hlast).1
    exact .inr ⟨rest, List.concat_eq_append, hevents⟩

theorem stands_give {armed : LeaseEntry} (h : ev.deed = .give id armed) :
    Stands (events ++ [ev]) id e ↔ e = armed := by
  constructor
  · rintro ⟨before, ev', later, armed', hsplit, hgive, hlater, hphase⟩
    rcases split_concat hsplit with ⟨rfl, rfl⟩ | ⟨rest, rfl, -⟩
    · rw [h] at hgive
      cases hgive
      rcases hphase with ⟨rfl, -⟩ | ⟨-, ev'', hmem, -⟩
      · rfl
      · cases hmem
    · exact absurd (.inl ⟨armed, h⟩) (hlater ev (by simp))
  · rintro rfl
    exact ⟨events, ev, [], e, rfl, h, by simp, .inl ⟨rfl, by simp⟩⟩

theorem not_stands_finish (h : ev.deed = .finish id) : ¬ Stands (events ++ [ev]) id e := by
  rintro ⟨before, ev', later, armed, hsplit, hgive, hlater, -⟩
  rcases split_concat hsplit with ⟨rfl, rfl⟩ | ⟨rest, rfl, -⟩
  · rw [h] at hgive
    cases hgive
  · exact absurd (.inr h) (hlater ev (by simp))

/-- An event that leaves a component its lease can only make it one that is being asked. -/
theorem stands_kept (h : ¬ ev.Supersedes id) :
    Stands (events ++ [ev]) id e ↔ ∃ e', Stands events id e' ∧
      e = if ev.deed = .ask ⟨id, e'.generation⟩ then { e' with phase := .handshaking } else e' := by
  constructor
  · rintro ⟨before, ev', later, armed, hsplit, hgive, hlater, hphase⟩
    rcases split_concat hsplit with ⟨rfl, rfl⟩ | ⟨rest, rfl, hevents⟩
    · exact absurd (.inl ⟨armed, hgive⟩) h
    · simp only [List.mem_append, List.mem_singleton] at hlater hphase
      have stands : ∀ e', ((e' = armed ∧ ∀ ev' ∈ rest, ev'.deed ≠ .ask ⟨id, armed.generation⟩) ∨
          (e' = { armed with phase := .handshaking } ∧
            ∃ ev' ∈ rest, ev'.deed = .ask ⟨id, armed.generation⟩)) → Stands events id e' :=
        fun e' hphase => ⟨before, ev', rest, armed, hevents, hgive,
          fun ev' hmem => hlater ev' (.inl hmem), hphase⟩
      rcases hphase with ⟨rfl, hnever⟩ | ⟨rfl, ev'', hmem | rfl, hask⟩
      · refine ⟨e, stands e (.inl ⟨rfl, fun ev' hmem => hnever ev' (.inl hmem)⟩), ?_⟩
        rw [if_neg (hnever ev (.inr rfl))]
      · refine ⟨_, stands _ (.inr ⟨rfl, ev'', hmem, hask⟩), ?_⟩
        split <;> rfl
      · -- The last event asks; whether an earlier one did makes no difference to the lease.
        by_cases hrest : ∃ ev' ∈ rest, ev'.deed = .ask ⟨id, armed.generation⟩
        · refine ⟨_, stands _ (.inr ⟨rfl, hrest⟩), ?_⟩
          rw [if_pos hask]
        · refine ⟨armed, stands armed (.inl ⟨rfl, fun ev' hmem heq => hrest ⟨ev', hmem, heq⟩⟩), ?_⟩
          rw [if_pos hask]
  · rintro ⟨e', ⟨before, ev', later, armed, rfl, hgive, hlater, hphase⟩, rfl⟩
    refine ⟨before, ev', later ++ [ev], armed, by simp, hgive, ?_, ?_⟩
    · intro ev' hmem
      rcases List.mem_append.mp hmem with hmem | hmem
      · exact hlater ev' hmem
      · rw [List.mem_singleton.mp hmem]
        exact h
    · rcases hphase with ⟨rfl, hnever⟩ | ⟨rfl, ev'', hmem, hask⟩
      · by_cases hev : ev.deed = .ask ⟨id, e'.generation⟩
        · rw [if_pos hev]
          exact .inr ⟨rfl, ev, by simp, hev⟩
        · rw [if_neg hev]
          refine .inl ⟨rfl, fun ev' hmem => ?_⟩
          rcases List.mem_append.mp hmem with hmem | hmem
          · exact hnever ev' hmem
          · rw [List.mem_singleton.mp hmem]
            exact hev
      · exact .inr ⟨by split <;> rfl, ev'', List.mem_append_left _ hmem, hask⟩

end Stands

/-! ## The record of all calls -/

/-- The generations that are given, in order. -/
def generations (events : List Event) : List Nat := events.filterMap Event.given?

/-- What a record has to do with the table after it. -/
structure Accounts (events : List Event) (t : LeaseTable) : Prop where
  numbered : t.Numbered
  next : t.nextGeneration = (generations events).length + 1
  given : generations events = List.range' 1 (generations events).length
  active : ∀ ev ∈ events, ∀ id e, ev.deed = .give id e → e.phase = .active
  stands : ∀ id e, t.get? id = some e ↔ Stands events id e
  held : ∀ ev ∈ events, ∀ id e, ev.deed = .give id e → t.HeldBy id e.generation
  asked : ∀ ev ∈ events, ∀ x, ev.deed = .ask x → t.Asked x.generation
  resolved : ∀ ev ∈ events, ∀ x, ev.Resolves x → t.Over x.generation
  superseded : ∀ a b, [a, b].Sublist events → ∀ id e, a.deed = .give id e → b.Supersedes id →
    t.Over e.generation

theorem accounts_start (settings : LeaseSettings) : Accounts [] { settings } where
  numbered id e h := by cases h
  next := rfl
  given := rfl
  active ev h := by cases h
  stands id e := by
    constructor
    · intro h
      cases h
    · intro h
      exact absurd h (not_stands_nil id e)
  held ev h := by cases h
  asked ev h := by cases h
  resolved ev h := by cases h
  superseded a b h := by cases h

/-- Of the parts of a list the last is the last of the list, or the list can do without it. -/
theorem concat_sublist_concat {l r : List Event} {a b : Event}
    (h : (l ++ [a]).Sublist (r ++ [b])) : (l ++ [a]).Sublist r ∨ (a = b ∧ l.Sublist r) := by
  rw [← List.reverse_sublist, List.reverse_concat, List.reverse_concat,
    List.cons_sublist_cons'] at h
  rcases h with h | ⟨rfl, h⟩
  · rw [← List.reverse_concat, List.reverse_sublist] at h
    exact .inl h
  · exact .inr ⟨rfl, List.reverse_sublist.mp h⟩

namespace Accounts

variable {events : List Event} {t u : LeaseTable} {ev : Event}

/-- Nobody but the component of a lease has its generation. -/
theorem heldBy (accounts : Accounts events t) {id : ComponentId} {e : LeaseEntry}
    (h : t.get? id = some e) : t.HeldBy id e.generation := by
  obtain ⟨before, ev, later, armed, rfl, hgive, -, ⟨rfl, -⟩ | ⟨rfl, -⟩⟩ :=
    (accounts.stands id e).mp h
  · exact accounts.held ev (by simp) id e hgive
  · exact accounts.held ev (by simp) id armed hgive

/-- A component that is being asked has been asked since it was given its lease. -/
theorem exists_ask (accounts : Accounts events t) {id : ComponentId} {e : LeaseEntry}
    (h : t.get? id = some e) (hphase : e.phase = .handshaking) :
    ∃ ev ∈ events, ev.deed = .ask ⟨id, e.generation⟩ := by
  obtain ⟨before, ev, later, armed, rfl, hgive, -, ⟨rfl, -⟩ | ⟨rfl, ev', hmem, hask⟩⟩ :=
    (accounts.stands id e).mp h
  · rw [accounts.active ev (by simp) id e hgive] at hphase
    cases hphase
  · exact ⟨ev', by simp [hmem], hask⟩

theorem stands_does (accounts : Accounts events t) (does : t.Does ev.deed u) (id : ComponentId)
    (e : LeaseEntry) : u.get? id = some e ↔ Stands (events ++ [ev]) id e := by
  have untouched : ¬ ev.Supersedes id → (∀ e' : LeaseEntry, ev.deed ≠ .ask ⟨id, e'.generation⟩) →
      u.get? id = t.get? id → (u.get? id = some e ↔ Stands (events ++ [ev]) id e) := by
    intro hkept hnever hget
    rw [stands_kept hkept, hget, accounts.stands]
    simp only [hnever, if_false, exists_eq_right']
  generalize hdeed : ev.deed = deed at does
  cases does with
  | @give _ id' armed active number next get =>
    by_cases hid : id = id'
    · subst hid
      rw [stands_give hdeed, get, if_pos rfl, Option.some.injEq, eq_comm]
    · refine untouched ?_ (by simp [hdeed]) (by rw [get, if_neg hid])
      simp [Event.Supersedes, hdeed, Ne.symm hid]
  | @finish _ id' next get =>
    by_cases hid : id = id'
    · subst hid
      rw [get, if_pos rfl]
      exact iff_of_false (by simp) (not_stands_finish hdeed)
    · refine untouched ?_ (by simp [hdeed]) (by rw [get, if_neg hid])
      simp [Event.Supersedes, hdeed, Ne.symm hid]
  | @ask _ x armed found number active next get =>
    have hkept : ¬ ev.Supersedes id := by simp [Event.Supersedes, hdeed]
    by_cases hid : id = x.component
    · subst hid
      rw [stands_kept hkept, get, if_pos rfl, Option.some.injEq]
      constructor
      · rintro rfl
        refine ⟨armed, (accounts.stands _ _).mp found, ?_⟩
        rw [hdeed, number, if_pos rfl]
      · rintro ⟨e', hstands, rfl⟩
        obtain rfl : armed = e' :=
          Option.some.inj (found.symm.trans ((accounts.stands _ _).mpr hstands))
        rw [hdeed, number, if_pos rfl]
    · refine untouched hkept (fun e' h => hid ?_) (by rw [get, if_neg hid])
      rw [hdeed] at h
      cases h
      rfl
  | nothing next get =>
    exact untouched (by simp [Event.Supersedes, hdeed]) (by simp [hdeed]) (get id)

theorem generations_does (accounts : Accounts events t) (does : t.Does ev.deed u) :
    u.nextGeneration = (generations (events ++ [ev])).length + 1 ∧
      generations (events ++ [ev]) = List.range' 1 (generations (events ++ [ev])).length := by
  have hsplit : generations (events ++ [ev]) = generations events ++ ev.given?.toList := by
    rw [generations, List.filterMap_append, ← generations]
    cases h : ev.given? with
    | none => simp [h]
    | some generation => simp [h]
  have same : u.nextGeneration = t.nextGeneration → ev.given? = none →
      u.nextGeneration = (generations (events ++ [ev])).length + 1 ∧
        generations (events ++ [ev]) = List.range' 1 (generations (events ++ [ev])).length := by
    intro hnext hgiven
    rw [hsplit, hgiven, Option.toList_none, List.append_nil, hnext]
    exact ⟨accounts.next, accounts.given⟩
  unfold Event.given? at same hsplit
  generalize ev.deed = deed at does same hsplit
  cases does with
  | give active number next get =>
    rw [hsplit]
    simp only [Option.toList_some, List.length_append, List.length_singleton]
    refine ⟨by rw [next, accounts.next], ?_⟩
    rw [List.range'_1_concat, ← accounts.given, number, accounts.next, Nat.add_comm]
  | finish next get => exact same next rfl
  | ask found number active next get => exact same next rfl
  | nothing next get => exact same next rfl

/-- The account goes on with every call. -/
theorem does (accounts : Accounts events t) (does : t.Does ev.deed u)
    (numbered : u.Numbered)
    (awaited : ∀ x, ev.Resolves x → t.isAwaiting x = true ∧ ev.Supersedes x.component) :
    Accounts (events ++ [ev]) u where
  numbered := numbered
  next := (accounts.generations_does does).1
  given := (accounts.generations_does does).2
  active := by
    intro ev' hmem id e hgive
    rcases List.mem_append.mp hmem with hmem | hmem
    · exact accounts.active ev' hmem id e hgive
    · rw [List.mem_singleton.mp hmem] at hgive
      rw [hgive] at does
      cases does with
      | give active number next get => exact active
  stands := accounts.stands_does does
  held := by
    intro ev' hmem id e hgive
    rcases List.mem_append.mp hmem with hmem | hmem
    · exact (accounts.held ev' hmem id e hgive).does does
    · rw [List.mem_singleton.mp hmem] at hgive
      rw [hgive] at does
      exact heldBy_give accounts.numbered does
  asked := by
    intro ev' hmem x hask
    rcases List.mem_append.mp hmem with hmem | hmem
    · exact (accounts.asked ev' hmem x hask).does does
    · rw [List.mem_singleton.mp hmem] at hask
      rw [hask] at does
      have held : t.HeldBy x.component x.generation := by
        cases does with
        | ask found number active next get => exact number ▸ accounts.heldBy found
      exact held.asked does
  resolved := by
    intro ev' hmem x hresolves
    rcases List.mem_append.mp hmem with hmem | hmem
    · exact (accounts.resolved ev' hmem x hresolves).does does
    · rw [List.mem_singleton.mp hmem] at hresolves
      obtain ⟨awaiting, superseded⟩ := awaited x hresolves
      obtain ⟨e, found, number, -⟩ := isAwaiting_iff.mp awaiting
      have held : t.HeldBy x.component x.generation := number ▸ accounts.heldBy found
      exact held.over_of_superseded does superseded
  superseded := by
    intro a b hsub id e hgive hsuperseded
    rcases concat_sublist_concat (show ([a] ++ [b]).Sublist _ from hsub) with hold | ⟨rfl, hnew⟩
    · exact (accounts.superseded a b hold id e hgive hsuperseded).does does
    · have held := accounts.held a (List.singleton_sublist.mp hnew) id e hgive
      exact held.over_of_superseded does hsuperseded

end Accounts

/-- Whether every generation that is given in a record has one life in it. -/
structure OneLife (events : List Event) : Prop where
  /-- At most one event for it makes the component be asked. -/
  askedOnce : events.Pairwise fun a b => ∀ x y, a.deed = .ask x → b.deed = .ask y →
    x.generation ≠ y.generation
  /-- At most one resolves the handshake. -/
  resolvedOnce : events.Pairwise fun a b => ∀ x y, a.Resolves x → b.Resolves y →
    x.generation ≠ y.generation
  /-- Before that the component has been asked. -/
  askedBefore : ∀ b ∈ events, ∀ x, b.Resolves x → ∃ a, a.deed = .ask x ∧ [a, b].Sublist events
  /-- Neither happens once the component has been given another lease or has lost this one. -/
  notSuperseded : ∀ a b c, [a, b, c].Sublist events → ∀ id e, a.deed = .give id e →
    b.Supersedes id → ∀ x, x.generation = e.generation → c.deed ≠ .ask x ∧ ¬ c.Resolves x

theorem oneLife_nil : OneLife [] where
  askedOnce := .nil
  resolvedOnce := .nil
  askedBefore b h := by cases h
  notSuperseded a b c h := by cases h

/-- A call adds nothing to the life of a generation that may not be in it. -/
theorem OneLife.does {events : List Event} {t u : LeaseTable} {ev : Event} (life : OneLife events)
    (accounts : Accounts events t) (does : t.Does ev.deed u)
    (awaited : ∀ x, ev.Resolves x → t.isAwaiting x = true) : OneLife (events ++ [ev]) := by
  have asks : ∀ x, ev.deed = .ask x →
      ∃ e, t.get? x.component = some e ∧ e.generation = x.generation ∧ e.phase = .active := by
    intro x h
    rw [h] at does
    cases does with
    | ask found number active next get => exact ⟨_, found, number, active⟩
  have resolves : ∀ x, ev.Resolves x →
      ∃ e, t.get? x.component = some e ∧ e.generation = x.generation ∧ e.phase = .handshaking :=
    fun x h => isAwaiting_iff.mp (awaited x h)
  refine ⟨?_, ?_, ?_, ?_⟩
  · refine List.pairwise_append.mpr ⟨life.askedOnce, List.pairwise_singleton _ _, ?_⟩
    intro a ha b hb x y hx hy hsame
    rw [List.mem_singleton.mp hb] at hy
    obtain ⟨e, found, number, active⟩ := asks y hy
    have asked := (accounts.asked a ha x hx).2 _ e found (number.trans hsame.symm)
    cases active.symm.trans asked
  · refine List.pairwise_append.mpr ⟨life.resolvedOnce, List.pairwise_singleton _ _, ?_⟩
    intro a ha b hb x y hx hy hsame
    rw [List.mem_singleton.mp hb] at hy
    obtain ⟨e, found, number, -⟩ := resolves y hy
    exact (accounts.resolved a ha x hx).2 _ e found (number.trans hsame.symm)
  · intro b hb x hx
    rcases List.mem_append.mp hb with hb | hb
    · obtain ⟨a, hask, hsub⟩ := life.askedBefore b hb x hx
      exact ⟨a, hask, hsub.trans (List.sublist_append_left events [ev])⟩
    · rw [List.mem_singleton.mp hb] at hx ⊢
      obtain ⟨e, found, number, handshaking⟩ := resolves x hx
      obtain ⟨a, ha, hask⟩ := accounts.exists_ask found handshaking
      rw [number] at hask
      exact ⟨a, hask, (List.singleton_sublist.mpr ha).append (List.Sublist.refl [ev])⟩
  · intro a b c hsub id e hgive hsuperseded x hx
    rcases concat_sublist_concat (show ([a, b] ++ [c]).Sublist _ from hsub) with hold | ⟨rfl, hnew⟩
    · exact life.notSuperseded a b c hold id e hgive hsuperseded x hx
    · have ended := accounts.superseded a b hnew id e hgive hsuperseded
      constructor
      · intro hask
        obtain ⟨e', found, number, -⟩ := asks x hask
        exact ended.2 _ e' found (number.trans hx)
      · intro hresolves
        obtain ⟨e', found, number, -⟩ := resolves x hresolves
        exact ended.2 _ e' found (number.trans hx)

theorem evolves_call (now : Instant) (t : LeaseTable) (c : Call) :
    t.Evolves (t.call now c).2 := by
  cases c with
  | arm id requested => exact .arm now id requested .refl
  | cancel id => exact .cancel id .refl
  | beginHandshake x => exact .beginHandshake x .refl
  | resolve x outcome => exact evolves_resolve now t x outcome
  | fire => exact .fire now .refl

theorem accounts_record (settings : LeaseSettings) (calls : List (Instant × Call)) :
    let r := record { settings } calls
    Accounts r.1 r.2 ∧ OneLife r.1 := by
  induction calls using List.reverseRecOn with
  | nil => exact ⟨accounts_start settings, oneLife_nil⟩
  | append_singleton calls c ih =>
    obtain ⟨accounts, life⟩ := ih
    simp only [record_concat]
    have does := does_call c.1 (record { settings } calls).2 c.2
    have numbered := accounts.numbered.evolves (evolves_call c.1 _ c.2)
    exact ⟨accounts.does does numbered fun x h => awaiting_of_resolves h,
      life.does accounts does fun x h => (awaiting_of_resolves h).1⟩

/-- From a table without leases, and as long as fewer generations are given than there are words:
the generations ascend and are words; each component has at most one lease, the last one that it was
given, if it has not lost it since; each generation has one life; and what is refused changes
nothing. -/
theorem handshakes_ordered {settings : LeaseSettings} {calls : List (Instant × Call)}
    {events : List Event} {t : LeaseTable} (recorded : record { settings } calls = (events, t))
    (few : (generations events).length < UInt64.size) :
    ((generations events).Pairwise (· < ·) ∧ ∀ g ∈ generations events, g < UInt64.size) ∧
    (t.entries.keys.Nodup ∧ ∀ id e, t.get? id = some e ↔ Stands events id e) ∧
    OneLife events ∧
    ∀ now c, (t.call now c).1.Refuses → (t.call now c).2 = t := by
  obtain ⟨accounts, life⟩ := accounts_record settings calls
  simp only [recorded] at accounts life
  refine ⟨⟨?_, ?_⟩, ⟨?_, accounts.stands⟩, life, fun now c => call_of_refuses⟩
  · rw [accounts.given]
    exact List.pairwise_lt_range' 1
  · intro g hg
    rw [accounts.given, List.mem_range'_1] at hg
    omega
  · refine (SortedMap.keys_ascending _).imp fun {a b} hlt heq => ?_
    rw [heq] at hlt
    simp at hlt

/-- A lamp stays when it is first asked, an answer is repeated, and the lamp is taken away while it
is asked again. -/
def lampCalls : List (Instant × Call) :=
  let lamp : ComponentId := ⟨"lamp"⟩
  [(⟨0⟩, .arm lamp none), (⟨60⟩, .beginHandshake ⟨lamp, 1⟩), (⟨60⟩, .beginHandshake ⟨lamp, 1⟩),
    (⟨61⟩, .resolve ⟨lamp, 1⟩ (.renewed (.ofMillis 5000))), (⟨62⟩, .resolve ⟨lamp, 1⟩ .ended),
    (⟨66⟩, .beginHandshake ⟨lamp, 2⟩), (⟨67⟩, .cancel lamp), (⟨68⟩, .resolve ⟨lamp, 2⟩ .ended)]

/-- Of the eight calls the first renewal alone resolves a handshake. -/
theorem handshakes_ordered_lamp :
    let r := record {} lampCalls
    generations r.1 = [1, 2] ∧ r.2.entries.keys = [] ∧ OneLife r.1 ∧
      (r.2.call ⟨69⟩ (.resolve ⟨⟨"lamp"⟩, 2⟩ .ended)).2 = r.2 :=
  have recorded : record {} lampCalls = ((record {} lampCalls).1, (record {} lampCalls).2) := rfl
  have ordered := handshakes_ordered recorded (by decide)
  ⟨by decide, by decide, ordered.2.2.1, ordered.2.2.2 ⟨69⟩ _ (by decide)⟩

end LeaseTable

end Rendezvous
