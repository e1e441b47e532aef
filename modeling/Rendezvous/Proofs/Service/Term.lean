import Mathlib.Data.List.Induction
import Rendezvous.Proofs.Service.Interleaving
import Rendezvous.Proofs.Service.Quiet
/-!
# How long leases run

Whoever chooses how long a lease is to run, be it the one who registers, updates or renews, or the
component itself when it is asked, what is granted is brought between the shortest and the longest
lease, and the lease runs out that much later than it was started. `Mediator.Starts` says which
operations start leases, and `Mediator.leases_bounded` that every lease of every history goes back
to one of them. Where calls run side by side leases are granted in no other way
(`Interleaving.granted_of_reachable`).

The bounds that a span is brought between may not cross. `Duration.clamp?` minds that, and
`LeaseSettings.clamp?_eq` says that no settings make them cross.
-/

namespace Rendezvous

/-- A span brought between two bounds, unless they cross. -/
def Duration.clamp? (d low high : Duration) : Option Duration :=
  if low ≤ high then some (if d < low then low else if high < d then high else d) else none

namespace LeaseSettings

/-- Whatever the settings are, the bounds of leases do not cross. -/
theorem clamp?_eq (s : LeaseSettings) (d : Duration) :
    d.clamp? s.shortest (max s.longest s.shortest) = some (s.clamp d) := by
  have ordered : s.shortest ≤ max s.longest s.shortest := by
    rw [Duration.le_def, Duration.max_nanos]
    omega
  have hnanos : (if d < s.shortest then s.shortest
      else if max s.longest s.shortest < d then max s.longest s.shortest else d).nanos =
        (s.clamp d).nanos := by
    simp only [clamp, Duration.clamp, Duration.min_nanos, Duration.max_nanos, Duration.lt_def]
    split
    · omega
    · split
      · rw [Duration.max_nanos]
        omega
      · omega
  rw [Duration.clamp?, if_pos ordered]
  exact congrArg (fun n => some (Duration.mk n)) hnanos

theorem grant_bounds (s : LeaseSettings) (requested : Option Lease) :
    s.shortest ≤ (s.grant requested).duration ∧
      (s.grant requested).duration ≤ max s.longest s.shortest :=
  Duration.clamp_bounds _ s.shortest s.longest

end LeaseSettings

/-! ## Leases that were started -/

/-- Whether two entries are the same lease, in whatever phase. -/
def LeaseEntry.Same (e e' : LeaseEntry) : Prop :=
  e'.lease = e.lease ∧ e'.expiresAt = e.expiresAt ∧ e'.generation = e.generation

theorem LeaseEntry.Same.trans {e e' e'' : LeaseEntry} (h : e.Same e') (h' : e'.Same e'') :
    e.Same e'' :=
  ⟨h'.1.trans h.1, h'.2.1.trans h.2.1, h'.2.2.trans h.2.2⟩

namespace LeaseTable

/-- Whether between two tables no leases start but those of which it is said whose they are, what
was requested and what was granted. -/
structure Starts (now : Instant) (said : ComponentId → Option Lease → Lease → Prop)
    (t u : LeaseTable) : Prop where
  settings : u.settings = t.settings
  later : t.nextGeneration ≤ u.nextGeneration
  lease : ∀ id e, u.get? id = some e →
    (∃ old, t.get? id = some old ∧ old.Same e) ∨
    (t.nextGeneration ≤ e.generation ∧ e.expiresAt = now + e.lease.duration ∧
      ∃ requested, e.lease = t.settings.grant requested ∧ said id requested e.lease)

section Starts

variable {now : Instant} {said : ComponentId → Option Lease → Lease → Prop} {t u v : LeaseTable}

/-- Where leases only end or are asked about, none start. -/
theorem Starts.none (settings : u.settings = t.settings)
    (later : u.nextGeneration = t.nextGeneration)
    (old : ∀ id e, u.get? id = some e → ∃ old, t.get? id = some old ∧ old.Same e) :
    t.Starts now said u :=
  ⟨settings, Nat.le_of_eq later.symm, fun id e h => .inl (old id e h)⟩

theorem Starts.refl : t.Starts now said t :=
  .none rfl rfl fun _ e h => ⟨e, h, rfl, rfl, rfl⟩

theorem Starts.trans (h : t.Starts now said u) (h' : u.Starts now said v) :
    t.Starts now said v where
  settings := h'.settings.trans h.settings
  later := Nat.le_trans h.later h'.later
  lease id e hget := by
    rcases h'.lease id e hget with ⟨old, hold, same⟩ | ⟨new, hexpires, requested, hgrant, hsaid⟩
    · rcases h.lease id old hold with
        ⟨older, holder, same'⟩ | ⟨new, hexpires, requested, hgrant, hsaid⟩
      · exact .inl ⟨older, holder, same'.trans same⟩
      · obtain ⟨hlease, hexpiry, hgeneration⟩ := same
        rw [← hlease] at hexpires hgrant hsaid
        exact .inr ⟨hgeneration ▸ new, hexpiry.trans hexpires, requested, hgrant, hsaid⟩
    · exact .inr ⟨Nat.le_trans h.later new, hexpires, requested, h.settings ▸ hgrant, hsaid⟩

theorem Starts.mono {said' : ComponentId → Option Lease → Lease → Prop}
    (h : t.Starts now said u)
    (more : ∀ id requested granted, said id requested granted → said' id requested granted) :
    t.Starts now said' u where
  settings := h.settings
  later := h.later
  lease id e hget := by
    rcases h.lease id e hget with old | ⟨new, hexpires, requested, hgrant, hsaid⟩
    · exact .inl old
    · exact .inr ⟨new, hexpires, requested, hgrant, more _ _ _ hsaid⟩

theorem starts_arm {id : ComponentId} {requested : Option Lease}
    (h : said id requested (t.settings.grant requested)) :
    t.Starts now said (t.arm now id requested).2 where
  settings := rfl
  later := Nat.le_succ _
  lease id' e hget := by
    rw [get?_arm] at hget
    split at hget
    · next hid =>
      cases hget
      rw [hid]
      exact .inr ⟨Nat.le_refl _, rfl, requested, rfl, h⟩
    · exact .inl ⟨e, hget, rfl, rfl, rfl⟩

theorem starts_cancel (id : ComponentId) : t.Starts now said (t.cancel id).2 := by
  refine .none (Evolves.cancel id .refl).settings (t.nextGeneration_cancel id) fun id' e h => ?_
  rw [get?_cancel] at h
  split at h
  · cases h
  · exact ⟨e, h, rfl, rfl, rfl⟩

theorem starts_drop (id : ComponentId) : t.Starts now said (t.drop id) := by
  refine .none rfl rfl fun id' e h => ?_
  rw [get?_drop] at h
  split at h
  · cases h
  · exact ⟨e, h, rfl, rfl, rfl⟩

theorem starts_beginHandshake (x : Expiry) : t.Starts now said (t.beginHandshake x).2 := by
  rcases t.beginHandshake_cases x with h | ⟨asked, hasked, -, -, h⟩
  · rw [h]
    exact .refl
  · rw [h]
    refine .none rfl rfl fun id e hget => ?_
    replace hget : (t.entries.insert x.component { asked with phase := .handshaking }).get? id =
        some e := hget
    rw [SortedMap.get?_insert] at hget
    split at hget
    · next hid =>
      cases hget
      exact ⟨asked, hid ▸ hasked, rfl, rfl, rfl⟩
    · exact ⟨e, hget, rfl, rfl, rfl⟩

theorem starts_resolve {x : Expiry} {outcome : HandshakeOutcome}
    (h : ∀ requested, t.isAwaiting x = true → outcome = .renewed requested →
      said x.component (some requested) (t.settings.grant (some requested))) :
    t.Starts now said (t.resolve now x outcome).2 := by
  rcases t.resolve_cases now x outcome with
    ⟨-, hresolve⟩ | ⟨awaited, ⟨requested, hrenewed, hresolve⟩ | ⟨-, reason, hresolve⟩⟩
  · rw [hresolve]
    exact .refl
  · rw [hresolve]
    exact starts_arm (h requested awaited hrenewed)
  · rw [hresolve]
    exact starts_drop x.component

end Starts

/-- Whether every lease is what the settings grant for some request, and runs out as much later than
some instant. -/
structure GrantedBy (settings : LeaseSettings) (t : LeaseTable) : Prop where
  configured : t.settings = settings
  lease : ∀ id e, t.get? id = some e →
    ∃ now requested, e.lease = settings.grant requested ∧ e.expiresAt = now + e.lease.duration

theorem GrantedBy.starts {settings : LeaseSettings} {now : Instant} {t u : LeaseTable}
    {said : ComponentId → Option Lease → Lease → Prop} (granted : t.GrantedBy settings)
    (h : t.Starts now said u) : u.GrantedBy settings where
  configured := h.settings.trans granted.configured
  lease id e hget := by
    rcases h.lease id e hget with
      ⟨old, hold, hlease, hexpiry, -⟩ | ⟨-, hexpires, requested, hgrant, -⟩
    · rw [hlease, hexpiry]
      exact granted.lease id old hold
    · rw [granted.configured] at hgrant
      exact ⟨now, requested, hgrant, hexpires⟩

end LeaseTable

/-! ## Calls that run side by side -/

namespace Interleaving

section Steps

variable (now : Instant) (id : ComponentId) (s : Stores)

theorem Guarded.starts_step (g : Guarded) :
    s.leases.Starts now (fun _ _ _ => True) (g.step now id s).2.leases := by
  cases g with
  | first t =>
    cases t with
    | evict => exact .refl
    | _ =>
      simp only [step]
      split
      all_goals exact .refl
  | arm requested => exact LeaseTable.starts_arm trivial
  | cancel => exact LeaseTable.starts_cancel id
  | remove => exact .refl
  | leave => exact .refl

theorem Call.starts_step (call : Call) :
    s.leases.Starts now (fun _ _ _ => True) (call.step now id s).2.leases := by
  cases call with
  | wait t => exact .refl
  | expiry generation =>
    have begins : s.leases.Starts now (fun _ _ _ => True)
        (s.leases.beginHandshake ⟨id, generation⟩).2 := LeaseTable.starts_beginHandshake _
    simp only [step]
    split
    · next h =>
      rw [h] at begins
      exact begins
    · exact .refl
  | lookUp generation =>
    simp only [step]
    split
    all_goals exact .refl
  | lateCancel generation => exact LeaseTable.starts_cancel id
  | completion generation outcome =>
    simp only [step]
    split
    · split
      · exact .refl
      · exact LeaseTable.starts_drop id
    · exact .refl
  | lateArm lease => exact LeaseTable.starts_arm trivial

end Steps

/-- Whatever comes between what, the leases are what the settings grant. -/
theorem granted_of_reachable {tolerated : Stray → Prop} {settings : LeaseSettings}
    {id : ComponentId} {scene : Scene} (reachable : scene.Reachable tolerated settings id) :
    scene.stores.leases.GrantedBy settings := by
  induction reachable with
  | refl => exact ⟨rfl, fun id' e h => by cases h⟩
  | tail _ step ih =>
    cases step with
    | start call h => exact ih
    | enter t => exact ih
    | inside now g => exact ih.starts (g.starts_step now id _)
    | outside now call h => exact ih.starts (call.starts_step now id _)

end Interleaving

/-! ## Which operations start leases -/

namespace Mediator

variable {J : Type} [Journal J]

/-- Whether an operation answers with the lease of a component that was granted for a request. -/
inductive Answers (now : Instant) (m : Mediator J) (id : ComponentId) :
    Operation → Option Lease → Lease → Prop
  | register {c : Component} {requested : Option Lease} {granted : Lease} (named : c.id = id)
      (answer : (m.register now c requested).1 = .ok granted) :
      Answers now m id (.register c requested) requested granted
  | update {delta : Attributes} {mode : UpdateMode} {requested granted : Lease}
      (answer : (m.update now id delta mode (some requested)).1 = .ok (some granted)) :
      Answers now m id (.update id delta mode (some requested)) (some requested) granted
  | renew {requested granted : Lease} (answer : (m.renew now id requested).1 = .ok granted) :
      Answers now m id (.renew id requested) (some requested) granted

/-- Whether an operation may start a lease of a component, which was requested and is granted. -/
inductive Starts (now : Instant) (m : Mediator J) (id : ComponentId) :
    Operation → Option Lease → Lease → Prop
  | answers {o : Operation} {requested : Option Lease} {granted : Lease}
      (h : m.Answers now id o requested granted) : Starts now m id o requested granted
  /-- The component is asked and answers that it stays. -/
  | reply {c : Completion} {generation : Nat} {requested : Lease}
      (key : c.key = ⟨id, .leaseEnd generation⟩)
      (awaited : m.leases.isAwaiting ⟨id, generation⟩ = true)
      (stays : HandshakeOutcome.ofDelivery id c.result = .renewed requested) :
      Starts now m id (.handleCompletion c) (some requested)
        (m.leases.settings.grant (some requested))
  /-- The component comes back, and nothing is requested. -/
  | reinstate {answers : List (Component × Bool)} {c : Component} (named : c.id = id)
      (answered : (c, true) ∈ answers) :
      Starts now m id (.reinstate answers) none (m.leases.settings.grant none)
  | restore {answers : Component → Bool} {cs : List Component} {c : Component} (named : c.id = id)
      (journaled : m.journaled = .ok cs) (logged : c ∈ cs) (answered : answers c = true) :
      Starts now m id (.restore answers) none (m.leases.settings.grant none)

section Operations

variable {now : Instant} {m : Mediator J} {said : ComponentId → Option Lease → Lease → Prop}

theorem starts_evict (id : ComponentId) : m.leases.Starts now said (m.evict id).2.leases := by
  cases hlease : m.leases.get? id with
  | some e =>
    rw [evict_of_leased (by rw [hlease]; rfl)]
    exact .refl
  | none =>
    rcases evict_cases hlease with ⟨e, -, h⟩ | ⟨-, h⟩ | ⟨c, -, h⟩
    · rw [h]
      exact .refl
    · rw [h]
      exact .refl
    · rw [h, depart_leases]
      exact .refl

theorem starts_handleExpiry (x : Expiry) :
    m.leases.Starts now said (m.handleExpiry now x).leases := by
  have begins : m.leases.Starts now said (m.leases.beginHandshake x).2 :=
    LeaseTable.starts_beginHandshake x
  unfold handleExpiry
  rcases hbegin : m.leases.beginHandshake x with ⟨_ | _, leases⟩
  · exact .refl
  · rw [hbegin] at begins
    simp only
    split
    · exact begins
    · exact begins.trans (LeaseTable.starts_cancel x.component)
    · rw [leases_conclude]
      -- What cannot be looked up has not answered, so no lease is requested.
      exact begins.trans (LeaseTable.starts_resolve fun requested _ h => by cases h)

theorem starts_handleCompletion (c : Completion) :
    m.leases.Starts now (fun id => m.Starts now id (.handleCompletion c))
      (m.handleCompletion now c).leases := by
  unfold handleCompletion
  split
  · next generation hpurpose =>
    rw [leases_conclude]
    refine LeaseTable.starts_resolve fun requested awaited stays => .reply ?_ awaited stays
    rw [← hpurpose]
  · exact .refl

theorem starts_reinstate (answers : List (Component × Bool)) :
    m.leases.Starts now (fun id requested granted => requested = none ∧
        granted = m.leases.settings.grant none ∧ ∃ c, c.id = id ∧ (c, true) ∈ answers)
      (m.reinstate now answers).2.leases := by
  induction answers generalizing m with
  | nil => exact .refl
  | cons answer rest ih =>
    obtain ⟨c, answered⟩ := answer
    cases answered with
    | false =>
      refine (ih (m := m.forget c.id)).mono fun id requested granted h => ?_
      obtain ⟨hrequested, hgranted, c', hc', hmem⟩ := h
      exact ⟨hrequested, hgranted, c', hc', List.mem_cons_of_mem _ hmem⟩
    | true =>
      unfold reinstate
      rcases m.registry.add_cases c with ⟨e, h⟩ | ⟨previous, d, -, h⟩
      · rw [h]
        exact .refl
      · rw [h]
        refine .trans (LeaseTable.starts_arm ⟨rfl, rfl, c, rfl, List.mem_cons_self⟩)
          ((ih (m := { m with registry := m.registry.after d
                              leases := (m.leases.arm now c.id none).2 })).mono
            fun id requested granted h => ?_)
        obtain ⟨hrequested, hgranted, c', hc', hmem⟩ := h
        exact ⟨hrequested, hgranted, c', hc', List.mem_cons_of_mem _ hmem⟩

/-- What an operation answers with is the lease that the component has from then on. -/
theorem Answers.leased {o : Operation} {id : ComponentId} {requested : Option Lease}
    {granted : Lease} (h : m.Answers now id o requested granted) :
    (m.perform now o).leases = (m.leases.arm now id requested).2 ∧
      granted = m.leases.settings.grant requested := by
  cases h with
  | @register c _ _ named answer =>
    show (m.register now c requested).2.leases = _ ∧ _
    rcases m.register_cases now c requested with ⟨e, h⟩ | ⟨previous, d, -, h⟩
    · rw [h] at answer
      cases answer
    · rw [h] at answer ⊢
      cases answer
      rw [named]
      exact ⟨rfl, rfl⟩
  | @update delta mode requested _ answer =>
    show (m.update now id delta mode (some requested)).2.leases = _ ∧ _
    rcases m.update_cases now id delta mode (some requested) with ⟨e, h⟩ | ⟨updated, d, -, h⟩
    · rw [h] at answer
      cases answer
    · rw [h] at answer ⊢
      cases answer
      exact ⟨rfl, rfl⟩
  | @renew requested _ answer =>
    show (m.renew now id requested).2.leases = _ ∧ _
    rcases m.renew_cases now id requested with ⟨e, h⟩ | ⟨-, h⟩
    · rw [h] at answer
      cases answer
    · rw [h] at answer ⊢
      cases answer
      exact ⟨rfl, rfl⟩

/-- An operation starts no leases but those that it is said to start. -/
theorem starts_perform (now : Instant) (m : Mediator J) (o : Operation) :
    m.leases.Starts now (fun id => m.Starts now id o) (m.perform now o).leases := by
  cases o with
  | register c lease =>
    rcases m.register_cases now c lease with ⟨e, h⟩ | ⟨previous, d, -, h⟩
    · show m.leases.Starts now _ (m.register now c lease).2.leases
      rw [h]
      exact .refl
    · have answer : (m.register now c lease).1 = .ok (m.leases.settings.grant lease) :=
        congrArg Prod.fst h
      show m.leases.Starts now _ (m.register now c lease).2.leases
      rw [h]
      exact LeaseTable.starts_arm (.answers (.register rfl answer))
  | update id delta mode lease =>
    rcases m.update_cases now id delta mode lease with ⟨e, h⟩ | ⟨updated, d, -, h⟩
    · show m.leases.Starts now _ (m.update now id delta mode lease).2.leases
      rw [h]
      exact .refl
    · cases lease with
      | none =>
        show m.leases.Starts now _ (m.update now id delta mode none).2.leases
        rw [h]
        exact .refl
      | some l =>
        have answer : (m.update now id delta mode (some l)).1 =
            .ok (some (m.leases.settings.grant (some l))) := congrArg Prod.fst h
        show m.leases.Starts now _ (m.update now id delta mode (some l)).2.leases
        rw [h]
        exact LeaseTable.starts_arm (.answers (.update answer))
  | renew id lease =>
    rcases m.renew_cases now id lease with ⟨e, h⟩ | ⟨-, h⟩
    · show m.leases.Starts now _ (m.renew now id lease).2.leases
      rw [h]
      exact .refl
    · have answer : (m.renew now id lease).1 = .ok (m.leases.settings.grant (some lease)) :=
        congrArg Prod.fst h
      show m.leases.Starts now _ (m.renew now id lease).2.leases
      rw [h]
      exact LeaseTable.starts_arm (.answers (.renew answer))
  | unregister id =>
    show m.leases.Starts now _ (m.unregister id).2.leases
    rcases m.unregister_cases id with ⟨e, h⟩ | ⟨c, -, h⟩
    · rw [h]
      exact .refl
    · rw [h, depart_leases]
      exact LeaseTable.starts_cancel id
  | evict id => exact starts_evict id
  | handleExpiry x => exact starts_handleExpiry x
  | handleCompletion c => exact starts_handleCompletion c
  | reinstate answers =>
    refine (starts_reinstate answers).mono fun id requested granted h => ?_
    obtain ⟨rfl, rfl, c, named, answered⟩ := h
    exact .reinstate named answered
  | restore answers =>
    show m.leases.Starts now _ (m.restore now answers).2.leases
    rcases m.restore_cases now answers with h | ⟨cs, journaled, h⟩
    · rw [h]
      exact .refl
    · rw [h]
      refine (starts_reinstate _).mono fun id requested granted h => ?_
      obtain ⟨rfl, rfl, c, named, answered⟩ := h
      obtain ⟨c', logged, hanswer⟩ := List.mem_map.mp answered
      obtain ⟨rfl, hanswers⟩ := Prod.mk.inj hanswer
      exact .restore named journaled logged hanswers
  | subscribe r =>
    show m.leases.Starts now _ (m.subscribe r).2.leases
    rw [(m.subscribe_frame r).2.1]
    exact .refl
  | unsubscribe id =>
    show m.leases.Starts now _ (m.unsubscribe id).2.leases
    rw [(m.unsubscribe_frame id).2.1]
    exact .refl
  | query q =>
    show m.leases.Starts now _ (m.query q).2.leases
    rcases m.query_cases q with h | h
    · rw [h]
      exact .refl
    · rw [h]
      exact .refl
  | queryPage q pageSize =>
    show m.leases.Starts now _ (m.queryPage q pageSize).2.leases
    obtain ⟨registry, cursors, -, h⟩ := m.queryPage_cursors q pageSize
    rw [h]
    exact .refl
  | queryNext cursor =>
    show m.leases.Starts now _ (m.queryNext cursor).2.leases
    obtain ⟨cursors, h⟩ := m.queryNext_cases cursor
    rw [h]
    exact .refl
  | fire => exact .none rfl rfl fun _ e h => ⟨e, h, rfl, rfl, rfl⟩
  | launch network => exact .refl
  | land => exact .refl
  | receive =>
    simp only [perform]
    split
    · exact .refl
    · exact .refl

end Operations

/-! ## Whole histories -/

theorem after_concat (m : Mediator J) (history : List (Instant × Operation)) (now : Instant)
    (o : Operation) : m.after (history ++ [(now, o)]) = (m.after history).perform now o :=
  List.foldl_append

/-- Where in a history a lease was started, by what operation: from then on the component has had
no other lease. -/
structure Started (m : Mediator J) (history : List (Instant × Operation)) (id : ComponentId)
    (e : LeaseEntry) (before : List (Instant × Operation)) (now : Instant) (o : Operation)
    (rest : List (Instant × Operation)) (requested : Option Lease) : Prop where
  split : history = before ++ (now, o) :: rest
  starts : (m.after before).Starts now id o requested e.lease
  granted : e.lease = m.leases.settings.grant requested
  expires : e.expiresAt = now + e.lease.duration
  /-- It is a new lease. -/
  new : (m.after before).leases.nextGeneration ≤ e.generation
  kept : ∀ later, later <+: rest →
    ∃ e', (m.after (before ++ (now, o) :: later)).leases.get? id = some e' ∧ e'.Same e

/-- Every lease was started in the history, if there were none before. -/
theorem exists_started {m : Mediator J} (none : ∀ id, m.leases.get? id = none)
    (history : List (Instant × Operation)) :
    (m.after history).leases.settings = m.leases.settings ∧
      ∀ id e, (m.after history).leases.get? id = some e →
        ∃ before now o rest requested, m.Started history id e before now o rest requested := by
  induction history using List.reverseRecOn with
  | nil =>
    refine ⟨rfl, fun id e h => ?_⟩
    rw [show m.after [] = m from rfl, none id] at h
    cases h
  | append_singleton history last ih =>
    obtain ⟨now, o⟩ := last
    obtain ⟨hsettings, started⟩ := ih
    have step := starts_perform now (m.after history) o
    rw [← after_concat] at step
    refine ⟨step.settings.trans hsettings, fun id e hget => ?_⟩
    rcases step.lease id e hget with ⟨old, hold, same⟩ | ⟨new, hexpires, requested, hgrant, starts⟩
    · obtain ⟨before, now', o', rest, requested, h⟩ := started id old hold
      obtain ⟨hlease, hexpiry, hgeneration⟩ := same
      refine ⟨before, now', o', rest ++ [(now, o)], requested, ?_, ?_, ?_, ?_, ?_, ?_⟩
      · rw [h.split, List.append_assoc, List.cons_append]
      · rw [hlease]
        exact h.starts
      · rw [hlease]
        exact h.granted
      · rw [hexpiry, hlease]
        exact h.expires
      · rw [hgeneration]
        exact h.new
      · intro later hlater
        rcases List.prefix_concat_iff.mp hlater with rfl | hlater
        · refine ⟨e, ?_, rfl, rfl, rfl⟩
          rw [← List.cons_append, ← List.append_assoc, ← h.split]
          exact hget
        · obtain ⟨e', hget', same'⟩ := h.kept later hlater
          exact ⟨e', hget', same'.trans ⟨hlease, hexpiry, hgeneration⟩⟩
    · refine ⟨history, now, o, [], requested, rfl, starts, ?_, hexpires, new,
        fun later hlater => ?_⟩
      · rw [← hsettings]
        exact hgrant
      · rw [List.prefix_nil.mp hlater]
        exact ⟨e, hget, rfl, rfl, rfl⟩

/-- Whatever the settings, the journal and the faults of the registry, and whatever has happened:
every lease is within bounds, runs out as much later as it is long than it was started, and is what
was granted for what was requested then; a registration, an update or a renewal that answers with a
lease has started just that one; while calls run side by side, leases are within the same bounds;
and the bounds do not cross. -/
theorem leases_bounded (settings : MediatorSettings) (journal : J) (cursorNames : Nat → String)
    (subscriptionNames : Nat → SubscriptionId) (faults : FaultPlan)
    (history : List (Instant × Operation)) :
    let start := (new settings journal cursorNames subscriptionNames).withFaults faults
    let s := settings.lease
    (∀ id e, (start.after history).leases.get? id = some e →
      (s.shortest ≤ e.lease.duration ∧ e.lease.duration ≤ max s.longest s.shortest) ∧
      ∃ before now o rest requested, start.Started history id e before now o rest requested) ∧
    (∀ now id o requested granted, (start.after history).Answers now id o requested granted →
      granted = s.grant requested ∧
      ∃ e, ((start.after history).perform now o).leases.get? id = some e ∧ e.lease = granted ∧
        e.expiresAt = now + granted.duration ∧ e.phase = .active) ∧
    (∀ id scene, Interleaving.Scene.Reachable (fun _ => True) s id scene →
      ∀ id' e, scene.stores.leases.get? id' = some e →
        (s.shortest ≤ e.lease.duration ∧ e.lease.duration ≤ max s.longest s.shortest) ∧
        ∃ now, e.expiresAt = now + e.lease.duration) ∧
    ∀ d : Duration, d.clamp? s.shortest (max s.longest s.shortest) = some (s.clamp d) := by
  intro start s
  have none : ∀ id, start.leases.get? id = none := fun _ => rfl
  obtain ⟨hsettings, started⟩ := exists_started none history
  replace hsettings : (start.after history).leases.settings = s := hsettings
  refine ⟨fun id e h => ⟨?_, started id e h⟩, fun now id o requested granted h => ?_,
    fun id scene reachable id' e h => ?_, s.clamp?_eq⟩
  · obtain ⟨before, now, o, rest, requested, h⟩ := started id e h
    rw [h.granted]
    exact s.grant_bounds requested
  · obtain ⟨hleases, rfl⟩ := h.leased
    rw [hleases, hsettings]
    refine ⟨rfl, ((start.after history).leases.arm now id requested).1, ?_, ?_, ?_, rfl⟩
    · rw [LeaseTable.get?_arm, if_pos rfl]
    · rw [← hsettings]
      rfl
    · rw [← hsettings]
      rfl
  · obtain ⟨now, requested, hgrant, hexpires⟩ :=
      (Interleaving.granted_of_reachable reachable).lease id' e h
    refine ⟨?_, now, hexpires⟩
    rw [hgrant]
    exact s.grant_bounds requested

end Mediator

end Rendezvous
