import Rendezvous.Lease.Table
import Rendezvous.Proofs.Collection.SortedSet
/-!
# The contents of a lease table

What each operation of a lease table does to `LeaseTable.get?`. A handshake that begins changes the
phase of a lease and no more; its resolution either finds the lease as the handshake left it, and
arms or drops it, or does nothing (`LeaseTable.resolve_cases`).

What any calls keep is proved once for each of them (`LeaseTable.Evolves`): the settings, and that
no lease has a generation that is still to be given.
-/

namespace Rendezvous

namespace LeaseTable

theorem get?_arm (now : Instant) (t : LeaseTable) (id : ComponentId) (requested : Option Lease)
    (id' : ComponentId) :
    (t.arm now id requested).2.get? id' =
      if id' = id then some (t.arm now id requested).1 else t.get? id' :=
  SortedMap.get?_insert t.entries id id' _

theorem get?_drop (t : LeaseTable) (id id' : ComponentId) :
    (t.drop id).get? id' = if id' = id then none else t.get? id' :=
  SortedMap.get?_erase t.entries id id'

theorem get?_cancel (t : LeaseTable) (id id' : ComponentId) :
    (t.cancel id).2.get? id' = if id' = id then none else t.get? id' := by
  unfold cancel
  cases hget : t.get? id with
  | none =>
    show t.get? id' = _
    by_cases h : id' = id
    · rw [if_pos h, h, hget]
    · rw [if_neg h]
  | some e => exact SortedMap.get?_erase t.entries id id'

/-- A handshake begins only for a running lease of the generation whose timer has fired. -/
theorem beginHandshake_cases (t : LeaseTable) (x : Expiry) :
    t.beginHandshake x = (false, t) ∨
    ∃ e, t.get? x.component = some e ∧ e.generation = x.generation ∧ e.phase = .active ∧
      t.beginHandshake x = (true,
        { t with entries := t.entries.insert x.component { e with phase := .handshaking } }) := by
  unfold beginHandshake
  cases hget : t.get? x.component with
  | none => exact .inl rfl
  | some e =>
    by_cases h : e.generation = x.generation ∧ e.phase = .active
    · exact .inr ⟨e, rfl, h.1, h.2, by simp [h]⟩
    · exact .inl (by simp [h])

theorem isSome_get?_beginHandshake (t : LeaseTable) (x : Expiry) (id : ComponentId) :
    ((t.beginHandshake x).2.get? id).isSome = (t.get? id).isSome := by
  rcases t.beginHandshake_cases x with h | ⟨e, he, -, -, h⟩
  · rw [h]
  · rw [h]
    show ((t.entries.insert x.component _).get? id).isSome = _
    rw [SortedMap.get?_insert]
    split
    · next hid => rw [hid, he]; rfl
    · rfl

theorem isAwaiting_iff {t : LeaseTable} {x : Expiry} :
    t.isAwaiting x = true ↔
      ∃ e, t.get? x.component = some e ∧ e.generation = x.generation ∧ e.phase = .handshaking := by
  unfold isAwaiting
  cases t.get? x.component with
  | none => simp
  | some e => simp

/-- A handshake that has begun is awaited. -/
theorem isAwaiting_of_begun {t : LeaseTable} {x : Expiry} (begun : (t.beginHandshake x).1 = true) :
    (t.beginHandshake x).2.isAwaiting x = true := by
  rcases t.beginHandshake_cases x with h | ⟨e, -, hgeneration, -, h⟩
  · rw [h] at begun
    cases begun
  · rw [h, isAwaiting_iff]
    refine ⟨{ e with phase := .handshaking }, ?_, hgeneration, rfl⟩
    show (t.entries.insert x.component _).get? x.component = _
    rw [SortedMap.get?_insert, if_pos rfl]

theorem resolve_cases (now : Instant) (t : LeaseTable) (x : Expiry) (outcome : HandshakeOutcome) :
    (t.isAwaiting x = false ∧ t.resolve now x outcome = (.stale, t)) ∨
    (t.isAwaiting x = true ∧
      ((∃ lease, outcome = .renewed lease ∧ t.resolve now x outcome =
          (.renewed (t.arm now x.component (some lease)).1,
            (t.arm now x.component (some lease)).2)) ∨
        ((∀ lease, outcome ≠ .renewed lease) ∧
          ∃ reason, t.resolve now x outcome = (.evict reason, t.drop x.component)))) := by
  unfold resolve
  cases hawaiting : t.isAwaiting x with
  | false => exact .inl ⟨rfl, rfl⟩
  | true =>
    refine .inr ⟨rfl, ?_⟩
    cases outcome with
    | renewed lease => exact .inl ⟨lease, rfl, rfl⟩
    | ended => exact .inr ⟨by simp, _, rfl⟩
    | failed reason => exact .inr ⟨by simp, _, rfl⟩

/-- Whether a table comes of another one by calls. -/
inductive Evolves (t : LeaseTable) : LeaseTable → Prop
  | refl : Evolves t t
  | arm {u : LeaseTable} (now : Instant) (id : ComponentId) (requested : Option Lease)
      (h : Evolves t u) : Evolves t (u.arm now id requested).2
  | cancel {u : LeaseTable} (id : ComponentId) (h : Evolves t u) : Evolves t (u.cancel id).2
  | beginHandshake {u : LeaseTable} (x : Expiry) (h : Evolves t u) :
      Evolves t (u.beginHandshake x).2
  | drop {u : LeaseTable} (id : ComponentId) (h : Evolves t u) : Evolves t (u.drop id)
  | fire {u : LeaseTable} (now : Instant) (h : Evolves t u) : Evolves t (u.fire now).2

theorem Evolves.trans {t u v : LeaseTable} (h : t.Evolves u) (h' : u.Evolves v) : t.Evolves v := by
  induction h' with
  | refl => exact h
  | arm now id requested _ ih => exact ih.arm now id requested
  | cancel id _ ih => exact ih.cancel id
  | beginHandshake x _ ih => exact ih.beginHandshake x
  | drop id _ ih => exact ih.drop id
  | fire now _ ih => exact ih.fire now

theorem evolves_resolve (now : Instant) (t : LeaseTable) (x : Expiry)
    (outcome : HandshakeOutcome) : t.Evolves (t.resolve now x outcome).2 := by
  rcases t.resolve_cases now x outcome with
    ⟨-, h⟩ | ⟨-, ⟨lease, -, h⟩ | ⟨-, reason, h⟩⟩
  · rw [h]
    exact .refl
  · rw [h]
    exact .arm now x.component (some lease) .refl
  · rw [h]
    exact .drop x.component .refl

/-- Whether the generations of all leases have been given. -/
def Numbered (t : LeaseTable) : Prop :=
  ∀ id e, t.get? id = some e → e.generation < t.nextGeneration

theorem Numbered.arm {t : LeaseTable} (numbered : t.Numbered) (now : Instant) (id : ComponentId)
    (requested : Option Lease) : (t.arm now id requested).2.Numbered := by
  intro id' e h
  rw [get?_arm] at h
  split at h
  · cases h
    exact Nat.lt_succ_self _
  · exact Nat.lt_succ_of_lt (numbered id' e h)

theorem nextGeneration_cancel (t : LeaseTable) (id : ComponentId) :
    (t.cancel id).2.nextGeneration = t.nextGeneration := by
  unfold cancel
  split <;> rfl

theorem Numbered.cancel {t : LeaseTable} (numbered : t.Numbered) (id : ComponentId) :
    (t.cancel id).2.Numbered := by
  intro id' e h
  rw [get?_cancel] at h
  rw [nextGeneration_cancel]
  split at h
  · cases h
  · exact numbered id' e h

theorem Numbered.drop {t : LeaseTable} (numbered : t.Numbered) (id : ComponentId) :
    (t.drop id).Numbered := by
  intro id' e h
  rw [get?_drop] at h
  split at h
  · cases h
  · exact numbered id' e h

theorem Numbered.beginHandshake {t : LeaseTable} (numbered : t.Numbered) (x : Expiry) :
    (t.beginHandshake x).2.Numbered := by
  rcases t.beginHandshake_cases x with h | ⟨e, he, -, -, h⟩
  · rw [h]
    exact numbered
  · rw [h]
    intro id e' h'
    have hentry : (t.entries.insert x.component { e with phase := .handshaking }).get? id =
        some e' := h'
    rw [SortedMap.get?_insert] at hentry
    split at hentry
    · cases hentry
      exact numbered x.component e he
    · exact numbered id e' hentry

theorem Numbered.evolves {t u : LeaseTable} (numbered : t.Numbered) (h : t.Evolves u) :
    u.Numbered := by
  induction h with
  | refl => exact numbered
  | arm now id requested _ ih => exact ih.arm now id requested
  | cancel id _ ih => exact ih.cancel id
  | beginHandshake x _ ih => exact ih.beginHandshake x
  | drop id _ ih => exact ih.drop id
  | fire now _ ih => exact ih

theorem Evolves.settings {t u : LeaseTable} (h : t.Evolves u) : u.settings = t.settings := by
  induction h with
  | refl => rfl
  | arm now id requested _ ih => exact ih
  | @cancel u id _ ih =>
    rw [← ih]
    unfold LeaseTable.cancel
    split <;> rfl
  | @beginHandshake u x _ ih =>
    rw [← ih]
    rcases u.beginHandshake_cases x with h | ⟨e, -, -, -, h⟩
    · rw [h]
    · rw [h]
  | drop id _ ih => exact ih
  | fire now _ ih => exact ih

/-! ## Leases that only start and end -/

/-- Whether between two tables leases only end, or start at an instant: of those that were armed
before, what is left is as it was, with its timer, and all others are running. -/
structure Rearms (now : Instant) (t u : LeaseTable) : Prop where
  later : t.nextGeneration ≤ u.nextGeneration
  kept : ∀ id e, u.get? id = some e → e.generation < t.nextGeneration →
    t.get? id = some e ∧
      ∀ timer ∈ t.timers, timer.expiry = ⟨id, e.generation⟩ → timer ∈ u.timers
  started : ∀ id e, u.get? id = some e → t.nextGeneration ≤ e.generation →
    e.phase = .active ∧ e.expiresAt = now + e.lease.duration ∧
      ⟨e.expiresAt, ⟨id, e.generation⟩⟩ ∈ u.timers

/-- A table in which leases have only ended. -/
theorem Numbered.rearms {t u : LeaseTable} (numbered : t.Numbered) (now : Instant)
    (later : t.nextGeneration ≤ u.nextGeneration)
    (kept : ∀ id e, u.get? id = some e → t.get? id = some e ∧
      ∀ timer ∈ t.timers, timer.expiry = ⟨id, e.generation⟩ → timer ∈ u.timers) :
    t.Rearms now u where
  later := later
  kept id e h _ := kept id e h
  started id e h new := by
    have old := numbered id e (kept id e h).1
    omega

theorem Rearms.refl {t : LeaseTable} (numbered : t.Numbered) (now : Instant) : t.Rearms now t :=
  numbered.rearms now (Nat.le_refl _) fun _ _ h => ⟨h, fun _ htimer _ => htimer⟩

theorem Rearms.trans {now : Instant} {t u v : LeaseTable} (h : t.Rearms now u)
    (h' : u.Rearms now v) : t.Rearms now v where
  later := Nat.le_trans h.later h'.later
  kept id e hget old := by
    have old' := Nat.lt_of_lt_of_le old h.later
    obtain ⟨hget', htimer'⟩ := h'.kept id e hget old'
    obtain ⟨hget'', htimer⟩ := h.kept id e hget' old
    exact ⟨hget'', fun timer hmem hexpiry => htimer' timer (htimer timer hmem hexpiry) hexpiry⟩
  started id e hget new := by
    by_cases new' : u.nextGeneration ≤ e.generation
    · exact h'.started id e hget new'
    · obtain ⟨hget', htimer⟩ := h'.kept id e hget (Nat.lt_of_not_le new')
      obtain ⟨hphase, hexpires, hmem⟩ := h.started id e hget' new
      exact ⟨hphase, hexpires, htimer _ hmem rfl⟩

/-- Timers of other components are not stopped. -/
theorem mem_stopTimer {t : LeaseTable} {id : ComponentId} {entry : Option LeaseEntry}
    {timer : Timer} (h : timer ∈ t.timers) (other : timer.expiry.component ≠ id) :
    timer ∈ t.stopTimer id entry := by
  unfold stopTimer
  cases entry with
  | none => exact h
  | some e =>
    refine List.mem_filter.mpr ⟨h, decide_eq_true fun hexpiry => other ?_⟩
    rw [hexpiry]

theorem Numbered.rearms_arm {t : LeaseTable} (numbered : t.Numbered) (now : Instant)
    (id : ComponentId) (requested : Option Lease) :
    t.Rearms now (t.arm now id requested).2 where
  later := Nat.le_succ _
  kept id' e h old := by
    rw [get?_arm] at h
    split at h
    · cases h
      exact absurd old (Nat.lt_irrefl _)
    · next hid =>
      refine ⟨h, fun timer hmem hexpiry => List.mem_append_left _ (mem_stopTimer hmem ?_)⟩
      rw [hexpiry]
      exact hid
  started id' e h new := by
    rw [get?_arm] at h
    split at h
    · next hid =>
      cases h
      rw [hid]
      exact ⟨rfl, rfl, List.mem_append_right _ (List.mem_singleton_self _)⟩
    · have old := numbered id' e h
      omega

theorem Numbered.rearms_cancel {t : LeaseTable} (numbered : t.Numbered) (now : Instant)
    (id : ComponentId) : t.Rearms now (t.cancel id).2 := by
  refine numbered.rearms now (Nat.le_of_eq (nextGeneration_cancel t id).symm) ?_
  intro id' e h
  rw [get?_cancel] at h
  split at h
  · cases h
  · next hid =>
    refine ⟨h, fun timer hmem hexpiry => ?_⟩
    unfold LeaseTable.cancel
    cases t.get? id with
    | none => exact hmem
    | some e' =>
      show timer ∈ t.stopTimer id (some e')
      refine mem_stopTimer hmem ?_
      rw [hexpiry]
      exact hid

theorem Numbered.rearms_drop {t : LeaseTable} (numbered : t.Numbered) (now : Instant)
    (id : ComponentId) : t.Rearms now (t.drop id) := by
  refine numbered.rearms now (Nat.le_refl _) fun id' e h => ?_
  rw [get?_drop] at h
  split at h
  · cases h
  · exact ⟨h, fun _ hmem _ => hmem⟩

theorem Numbered.rearms_resolve {t : LeaseTable} (numbered : t.Numbered) (now : Instant)
    (x : Expiry) (outcome : HandshakeOutcome) : t.Rearms now (t.resolve now x outcome).2 := by
  rcases t.resolve_cases now x outcome with ⟨-, h⟩ | ⟨-, ⟨lease, -, h⟩ | ⟨-, reason, h⟩⟩
  · rw [h]
    exact .refl numbered now
  · rw [h]
    exact numbered.rearms_arm now x.component (some lease)
  · rw [h]
    exact numbered.rearms_drop now x.component

/-- What comes of a handshake ends the arming that it was about. -/
theorem ends_resolve (now : Instant) {t : LeaseTable} (numbered : t.Numbered) {x : Expiry}
    (awaited : t.isAwaiting x = true) (outcome : HandshakeOutcome) {e : LeaseEntry}
    (h : (t.resolve now x outcome).2.get? x.component = some e) :
    e.generation ≠ x.generation := by
  obtain ⟨e', he', hgeneration, -⟩ := isAwaiting_iff.mp awaited
  rcases t.resolve_cases now x outcome with ⟨stale, -⟩ | ⟨-, ⟨lease, -, heq⟩ | ⟨-, reason, heq⟩⟩
  · rw [stale] at awaited
    cases awaited
  · rw [heq, get?_arm, if_pos rfl] at h
    cases h
    have hnumber := numbered x.component e' he'
    rw [hgeneration] at hnumber
    exact Nat.ne_of_gt hnumber
  · rw [heq, get?_drop, if_pos rfl] at h
    cases h

/-! ## Leases that nobody asked for -/

/-- Starts the leases of components one after the other, for the time that is meant for those who
ask for none. -/
def armAll (now : Instant) (t : LeaseTable) (ids : List ComponentId) : LeaseTable :=
  ids.foldl (fun t id => (t.arm now id none).2) t

theorem settings_armAll (now : Instant) (t : LeaseTable) (ids : List ComponentId) :
    (t.armAll now ids).settings = t.settings := by
  induction ids generalizing t with
  | nil => rfl
  | cons id rest ih => exact ih (t.arm now id none).2

/-- Whether a component has such a lease from an instant on, and its timer runs. -/
def Granted (t : LeaseTable) (now : Instant) (id : ComponentId) : Prop :=
  ∃ e, t.get? id = some e ∧ e.phase = .active ∧ e.lease = ⟨t.settings.clamp t.settings.default⟩ ∧
    e.expiresAt = now + e.lease.duration ∧ ⟨e.expiresAt, ⟨id, e.generation⟩⟩ ∈ t.timers

theorem granted_arm (now : Instant) (t : LeaseTable) (id : ComponentId) :
    (t.arm now id none).2.Granted now id := by
  refine ⟨(t.arm now id none).1, ?_, rfl, rfl, rfl, List.mem_append_right _ (by simp [arm])⟩
  rw [get?_arm, if_pos rfl]

theorem Granted.arm {t : LeaseTable} {now : Instant} {id : ComponentId} (granted : t.Granted now id)
    (id' : ComponentId) : (t.arm now id' none).2.Granted now id := by
  by_cases h : id = id'
  · rw [h]
    exact granted_arm now t id'
  · obtain ⟨e, hget, hphase, hlease, hexpires, htimer⟩ := granted
    refine ⟨e, ?_, hphase, hlease, hexpires, List.mem_append_left _ (mem_stopTimer htimer h)⟩
    rw [get?_arm, if_neg h]
    exact hget

theorem Granted.armAll {t : LeaseTable} {now : Instant} {id : ComponentId}
    (granted : t.Granted now id) (ids : List ComponentId) : (t.armAll now ids).Granted now id := by
  induction ids generalizing t with
  | nil => exact granted
  | cons id' rest ih => exact ih (granted.arm id')

theorem granted_armAll (now : Instant) (t : LeaseTable) {ids : List ComponentId}
    {id : ComponentId} (h : id ∈ ids) : (t.armAll now ids).Granted now id := by
  induction ids generalizing t with
  | nil => cases h
  | cons id' rest ih =>
    rcases List.mem_cons.mp h with rfl | hrest
    · exact (granted_arm now t id).armAll rest
    · exact ih (t.arm now id' none).2 hrest

end LeaseTable

end Rendezvous
