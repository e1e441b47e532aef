import Rendezvous.Proofs.Service.Interleaving
/-!
# What the lock keeps and what it does not

Of the stores only little matters to the calls about one component: whether it is registered, and
the generation of its lease (`Interleaving.View`). A step changes this view in one of few ways
(`Guarded.Moves`, `Call.Moves`), and as long as no step is stray an invariant holds
(`Interleaving.Sound`): registration and lease differ only while somebody is about to bring them in
step. So at rest they agree, and exactly the stray steps can break this
(`Interleaving.consistent_at_rest_iff`).
-/

namespace Rendezvous

namespace Interleaving

/-- What the stores say about one component. -/
structure View where
  registered : Bool
  /-- The generation of its lease, if it has one. -/
  generation : Option Nat
  /-- The generation of the next arming. -/
  next : Nat

namespace View

/-- The component is registered. -/
def put (v : View) : View := { v with registered := true }

/-- The component is removed. -/
def take (v : View) : View := { v with registered := false }

/-- The lease starts anew. -/
def arm (v : View) : View := { v with generation := some v.next, next := v.next + 1 }

/-- The lease ends. -/
def drop (v : View) : View := { v with generation := none }

end View

/-- What the stores say about a component. -/
def Stores.view (id : ComponentId) (s : Stores) : View :=
  ⟨s.registry.directory.contains id, (s.leases.get? id).map LeaseEntry.generation,
    s.leases.nextGeneration⟩

/-- Whether the registry is one in memory that has each component under its own name. -/
structure Stores.Regular (s : Stores) : Prop where
  faultless : s.registry.Faultless
  named : s.registry.directory.Named

/-- All that a step under the lock can do. -/
inductive Guarded.Moves (v : View) : Guarded → Option Guarded → View → Prop
  | leaves (t : Task) (h : t = .evict → v.generation ≠ none) :
      Moves v (.first t) (some .leave) v
  | adds (c : Component) (lease : Option Lease) :
      Moves v (.first (.register c lease)) (some (.arm lease)) v.put
  | finds (t : Task) (requested : Option Lease) (h : v.registered = true) :
      Moves v (.first t) (some (.arm requested)) v
  | takes : Moves v (.first .unregister) (some .cancel) v.take
  | misses (h : v.generation = none) : Moves v (.first .evict) (some .remove) v
  | arms (requested : Option Lease) : Moves v (.arm requested) (some .leave) v.arm
  | cancels : Moves v .cancel (some .leave) v.drop
  | removes : Moves v .remove (some .leave) v.take
  | gives : Moves v .leave none v

/-- All that a step without the lock can do. -/
inductive Call.Moves (v : View) : Call → Option Call → View → Prop
  | waits (t : Task) : Moves v (.wait t) (some (.wait t)) v
  | ignores (g : Nat) : Moves v (.expiry g) none v
  | begins (g : Nat) (h : v.generation = some g) : Moves v (.expiry g) (some (.lookUp g)) v
  | asks (g : Nat) : Moves v (.lookUp g) none v
  | misses (g : Nat) (h : v.registered = false) : Moves v (.lookUp g) (some (.lateCancel g)) v
  | cancels (g : Nat) : Moves v (.lateCancel g) none v.drop
  | passes (g : Nat) (outcome : HandshakeOutcome) : Moves v (.completion g outcome) none v
  | keeps (g : Nat) (lease : Lease) :
      Moves v (.completion g (.renewed lease)) (some (.lateArm lease)) v
  | loses (g : Nat) (outcome : HandshakeOutcome) :
      Moves v (.completion g outcome) (some (.wait .evict)) v.drop
  | arms (lease : Lease) : Moves v (.lateArm lease) none v.arm

/-! ## What the steps do to the view -/

section Views

variable {id : ComponentId} {s : Stores}

theorem view_arm (now : Instant) (requested : Option Lease) :
    Stores.view id { s with leases := (s.leases.arm now id requested).2 } = (s.view id).arm := by
  unfold Stores.view View.arm
  simp only [LeaseTable.get?_arm, ↓reduceIte, Option.map_some]
  rfl

theorem view_cancel :
    Stores.view id { s with leases := (s.leases.cancel id).2 } = (s.view id).drop := by
  unfold Stores.view View.drop
  simp only [LeaseTable.get?_cancel, ↓reduceIte, Option.map_none,
    LeaseTable.nextGeneration_cancel]

theorem view_drop :
    Stores.view id { s with leases := s.leases.drop id } = (s.view id).drop := by
  unfold Stores.view View.drop
  simp only [LeaseTable.get?_drop, ↓reduceIte, Option.map_none]
  rfl

theorem view_registry (d : Directory) :
    Stores.view id { s with registry := s.registry.after d } =
      { s.view id with registered := d.contains id } := rfl

theorem view_called :
    Stores.view id { s with registry := s.registry.after s.registry.directory } = s.view id := rfl

theorem view_remove :
    Stores.view id { s with registry := s.registry.after (s.registry.directory.remove id).2 } =
      (s.view id).take := by
  rw [view_registry, Directory.contains_eq_isSome, Directory.get?_remove, if_pos rfl]
  rfl

theorem Stores.Regular.after (regular : s.Regular) {d : Directory} (named : d.Named) :
    Stores.Regular { s with registry := s.registry.after d } :=
  ⟨regular.faultless, named⟩

theorem Stores.Regular.leases (regular : s.Regular) (leases : LeaseTable) :
    Stores.Regular { s with leases } :=
  ⟨regular.faultless, regular.named⟩

/-- A step under the lock is one of the moves. -/
theorem Guarded.step_moves (now : Instant) (regular : s.Regular) (g : Guarded)
    (own : ∀ c lease, g = .first (.register c lease) → c.id = id) :
    g.Moves (s.view id) (g.step now id s).1 ((g.step now id s).2.view id) ∧
      (g.step now id s).2.Regular := by
  cases g with
  | arm requested =>
    refine ⟨?_, regular.leases _⟩
    simp only [Guarded.step, view_arm]
    exact .arms requested
  | cancel =>
    refine ⟨?_, regular.leases _⟩
    simp only [Guarded.step, view_cancel]
    exact .cancels
  | remove =>
    rcases s.registry.remove_cases id with ⟨e, hfail, -⟩ | h
    · exact absurd hfail (regular.faultless.not_fails .remove)
    · simp only [Guarded.step, h, view_remove]
      exact ⟨.removes, regular.after (regular.named.remove id)⟩
  | leave => exact ⟨.gives, regular⟩
  | first t =>
    cases t with
    | register c lease =>
      rcases s.registry.add_cases c with ⟨e, h⟩ | ⟨previous, d, hop, h⟩
      · simp only [Guarded.step, h, view_called]
        exact ⟨.leaves _ (by simp), regular.after regular.named⟩
      · have hcontains : d.contains id = true := by
          rw [Directory.contains_eq_isSome, Directory.get?_insert hop,
            if_pos (own c lease rfl).symm]
          rfl
        simp only [Guarded.step, h, view_registry, hcontains]
        exact ⟨.adds c lease, regular.after (regular.named.insert hop)⟩
    | update delta mode lease =>
      rcases s.registry.update_cases id delta mode with ⟨e, h⟩ | ⟨updated, d, hop, h⟩
      · simp only [Guarded.step, h, view_called]
        exact ⟨.leaves _ (by simp), regular.after regular.named⟩
      · obtain ⟨c, hget, -⟩ := Directory.update_eq_ok.mp hop
        have hbefore : (s.view id).registered = true := by
          show s.registry.directory.contains id = true
          rw [Directory.contains_eq_isSome, hget]
          rfl
        have hcontains : d.contains id = (s.view id).registered := by
          rw [hbefore, Directory.contains_eq_isSome, Directory.get?_update regular.named hop,
            if_pos rfl]
          rfl
        cases lease with
        | none =>
          simp only [Guarded.step, h, view_registry, hcontains]
          exact ⟨.leaves _ (by simp), regular.after (regular.named.update hop)⟩
        | some l =>
          simp only [Guarded.step, h, view_registry, hcontains]
          exact ⟨.finds _ _ hbefore, regular.after (regular.named.update hop)⟩
    | renew lease =>
      rcases s.registry.contains_cases id with ⟨e, hfail, -⟩ | h
      · exact absurd hfail (regular.faultless.not_fails .contains)
      · cases hcontains : s.registry.directory.contains id with
        | false =>
          rw [hcontains] at h
          simp only [Guarded.step, h, view_called]
          exact ⟨.leaves _ (by simp), regular.after regular.named⟩
        | true =>
          rw [hcontains] at h
          simp only [Guarded.step, h, view_called]
          exact ⟨.finds _ _ hcontains, regular.after regular.named⟩
    | unregister =>
      rcases s.registry.remove_cases id with ⟨e, hfail, -⟩ | h
      · exact absurd hfail (regular.faultless.not_fails .remove)
      · cases hget : s.registry.directory.get? id with
        | none =>
          rw [hget, Directory.remove_of_absent hget] at h
          simp only [Guarded.step, h, view_called]
          exact ⟨.leaves _ (by simp), regular.after regular.named⟩
        | some c =>
          rw [hget] at h
          simp only [Guarded.step, h, view_remove]
          exact ⟨.takes, regular.after (regular.named.remove id)⟩
    | evict =>
      cases hlease : s.leases.get? id with
      | none =>
        have hgeneration : (s.view id).generation = none := by
          show (s.leases.get? id).map LeaseEntry.generation = none
          rw [hlease]
          rfl
        simp only [Guarded.step, hlease, Option.isSome_none, Bool.false_eq_true, ↓reduceIte]
        exact ⟨.misses hgeneration, regular⟩
      | some e =>
        have hgeneration : (s.view id).generation ≠ none := by
          show (s.leases.get? id).map LeaseEntry.generation ≠ none
          rw [hlease]
          exact Option.some_ne_none _
        simp only [Guarded.step, hlease, Option.isSome_some, ↓reduceIte]
        exact ⟨.leaves _ fun _ => hgeneration, regular⟩

/-- A step without the lock is one of the moves. -/
theorem Call.step_moves (now : Instant) (id : ComponentId) (regular : s.Regular) (call : Call) :
    call.Moves (s.view id) (call.step now id s).1 ((call.step now id s).2.view id) ∧
      (call.step now id s).2.Regular := by
  cases call with
  | wait t => exact ⟨.waits t, regular⟩
  | expiry g =>
    rcases s.leases.beginHandshake_cases ⟨id, g⟩ with h | ⟨e, he, hgeneration, -, h⟩
    · simp only [Call.step, h]
      exact ⟨.ignores g, regular⟩
    · have hown : (s.view id).generation = some g := by
        show (s.leases.get? id).map LeaseEntry.generation = some g
        have he' : s.leases.get? id = some e := he
        rw [he', Option.map_some, hgeneration]
      have hview : Stores.view id { s with leases := { s.leases with
          entries := s.leases.entries.insert id { e with phase := .handshaking } } } =
          s.view id := by
        have hentry : (s.leases.entries.insert id { e with phase := .handshaking }).get? id =
            some { e with phase := .handshaking } := SortedMap.get?_insert_self _ _ _
        show View.mk _ ((SortedMap.get? _ id).map LeaseEntry.generation) _ = _
        rw [hentry]
        have hgen : (s.view id).generation = some e.generation := by
          rw [hown]
          exact congrArg some hgeneration.symm
        show View.mk (s.view id).registered (some e.generation) (s.view id).next = s.view id
        rw [← hgen]
      simp only [Call.step, h]
      rw [hview]
      exact ⟨.begins g hown, regular.leases _⟩
  | lookUp g =>
    rcases s.registry.get_cases id with ⟨e, hfail, -⟩ | h
    · exact absurd hfail (regular.faultless.not_fails .get)
    · cases hget : s.registry.directory.get? id with
      | none =>
        have hregistered : (s.view id).registered = false := by
          show s.registry.directory.contains id = false
          rw [Directory.contains_eq_isSome, hget]
          rfl
        rw [hget] at h
        simp only [Call.step, h, view_called]
        exact ⟨.misses g hregistered, regular.after regular.named⟩
      | some c =>
        rw [hget] at h
        simp only [Call.step, h, view_called]
        exact ⟨.asks g, regular.after regular.named⟩
  | lateCancel g =>
    refine ⟨?_, regular.leases _⟩
    simp only [Call.step, view_cancel]
    exact .cancels g
  | completion g outcome =>
    cases hawaiting : s.leases.isAwaiting ⟨id, g⟩ with
    | false =>
      simp only [Call.step, hawaiting, Bool.false_eq_true, ↓reduceIte]
      exact ⟨.passes g outcome, regular⟩
    | true =>
      cases outcome with
      | renewed lease =>
        simp only [Call.step, hawaiting, ↓reduceIte]
        exact ⟨.keeps g lease, regular⟩
      | ended =>
        simp only [Call.step, hawaiting, ↓reduceIte, view_drop]
        exact ⟨.loses g .ended, regular.leases _⟩
      | failed reason =>
        simp only [Call.step, hawaiting, ↓reduceIte, view_drop]
        exact ⟨.loses g (.failed reason), regular.leases _⟩
  | lateArm lease =>
    refine ⟨?_, regular.leases _⟩
    simp only [Call.step, view_arm]
    exact .arms lease

end Views

/-! ## The invariant -/

/-- What a task that has the lock relies on. -/
def Guarded.Fits (id : ComponentId) (v : View) : Guarded → Prop
  | .first (.register c _) => c.id = id
  | .arm _ => v.registered = true
  | .cancel => v.registered = false
  | .remove => v.generation = none
  | _ => True

/-- What a call without the lock relies on. A component that was not found may have been registered
since, but then with a lease of a later generation. -/
def Call.Fits (id : ComponentId) (v : View) : Call → Prop
  | .wait (.register c _) => c.id = id
  | .lookUp g => g < v.next
  | .lateCancel g => g < v.next ∧ (v.generation = some g → v.registered = false)
  | _ => True

/-- Whether a task that has the lock will give a component without a lease one, or remove it. -/
def Guarded.Mends : Guarded → Prop
  | .first .evict | .arm _ | .remove => True
  | _ => False

/-- Registration and lease agree, but for what somebody is about to do. -/
structure Sound (id : ComponentId) (v : View) (holder : Option Guarded)
    (calls : Multiset Call) : Prop where
  issued : ∀ g, v.generation = some g → g < v.next
  inside : ∀ g, holder = some g → g.Fits id v
  outside : ∀ call ∈ calls, call.Fits id v
  /-- A lease without a component is about to be ended. -/
  orphan : v.registered = false → v.generation ≠ none → holder = some .cancel
  /-- A component without a lease is about to get one or to be removed. -/
  bare : v.registered = true → v.generation = none →
    (∃ g, holder = some g ∧ g.Mends) ∨ .wait .evict ∈ calls

section Preservation

variable {id : ComponentId} {v v' : View} {holder : Option Guarded} {calls rest : Multiset Call}

theorem sound_start (settings : LeaseSettings) :
    Sound id ((Scene.start settings).stores.view id) none 0 where
  issued _ h := by cases h
  inside _ h := by cases h
  outside _ h := absurd h (Multiset.notMem_zero _)
  orphan _ h := absurd rfl h
  bare h := by cases h

theorem Call.fits_of_isStart {call : Call} (h : call.IsStart id) : call.Fits id v := by
  cases call with
  | wait t =>
    cases t with
    | register c lease => exact h
    | _ => trivial
  | lookUp g => cases h
  | lateCancel g => cases h
  | _ => trivial

theorem Sound.start (sound : Sound id v holder calls) {call : Call} (h : call.IsStart id) :
    Sound id v holder (call ::ₘ calls) where
  issued := sound.issued
  inside := sound.inside
  outside := Multiset.forall_mem_cons.mpr ⟨Call.fits_of_isStart h, sound.outside⟩
  orphan := sound.orphan
  bare hregistered hnone :=
    (sound.bare hregistered hnone).imp_right Multiset.mem_cons_of_mem

theorem Sound.enter {t : Task} (sound : Sound id v none (.wait t ::ₘ rest)) :
    Sound id v (some (.first t)) rest where
  issued := sound.issued
  inside g hg := by
    have hwait : (Call.wait t).Fits id v := sound.outside _ (Multiset.mem_cons_self _ _)
    cases hg
    cases t with
    | register c lease => exact hwait
    | _ => trivial
  outside c hc := sound.outside c (Multiset.mem_cons_of_mem hc)
  orphan hregistered hlease := by cases sound.orphan hregistered hlease
  bare hregistered hnone := by
    rcases sound.bare hregistered hnone with ⟨g, hg, -⟩ | hevict
    · cases hg
    · rcases Multiset.mem_cons.mp hevict with heq | hevict
      · cases heq
        exact .inl ⟨_, rfl, trivial⟩
      · exact .inr hevict

/-- A task that has the lock still fits if the component is registered as before, and has no lease
if it had none. -/
theorem Guarded.Fits.congr {g : Guarded} (h : g.Fits id v)
    (hregistered : v'.registered = v.registered)
    (hgeneration : v.generation = none → v'.generation = none) : g.Fits id v' := by
  cases g with
  | first t =>
    cases t with
    | register c lease => exact h
    | _ => trivial
  | arm requested => exact hregistered.trans h
  | cancel => exact hregistered.trans h
  | remove => exact hgeneration h
  | leave => trivial

/-- The calls still fit if the component is registered no more than before, and its lease, if it has
one, is the one that it had. -/
theorem Call.Fits.anti {call : Call} (h : call.Fits id v)
    (hregistered : v.registered = false → v'.registered = false)
    (hgeneration : ∀ g, v'.generation = some g → v.generation = some g)
    (hnext : v.next ≤ v'.next) : call.Fits id v' := by
  cases call with
  | wait t =>
    cases t with
    | register c lease => exact h
    | _ => trivial
  | lookUp g => exact Nat.lt_of_lt_of_le h hnext
  | lateCancel g =>
    obtain ⟨hlt, hown⟩ := h
    exact ⟨Nat.lt_of_lt_of_le hlt hnext, fun hg => hregistered (hown (hgeneration g hg))⟩
  | _ => trivial

theorem Call.Fits.take {call : Call} (h : call.Fits id v) : call.Fits id v.take :=
  h.anti (fun _ => rfl) (fun _ hg => hg) (Nat.le_refl _)

theorem Call.Fits.drop {call : Call} (h : call.Fits id v) : call.Fits id v.drop := by
  refine h.anti (fun removed => removed) ?_ (Nat.le_refl _)
  intro g hg
  cases hg

/-- The calls still fit after the component has come, if it had no lease while it was not there. -/
theorem Call.Fits.put {call : Call} (h : call.Fits id v)
    (unleased : v.registered = false → v.generation = none) : call.Fits id v.put := by
  cases call with
  | wait t =>
    cases t with
    | register c lease => exact h
    | _ => trivial
  | lookUp g => exact h
  | lateCancel g =>
    obtain ⟨hlt, hown⟩ := h
    refine ⟨hlt, fun hg => ?_⟩
    have hnone : v.generation = none := unleased (hown hg)
    cases hnone.symm.trans hg
  | _ => trivial

/-- The calls still fit after a new arming, as they know of earlier ones only. -/
theorem Call.Fits.arm {call : Call} (h : call.Fits id v) : call.Fits id v.arm := by
  cases call with
  | wait t =>
    cases t with
    | register c lease => exact h
    | _ => trivial
  | lookUp g => exact Nat.lt_succ_of_lt h
  | lateCancel g =>
    obtain ⟨hlt, -⟩ := h
    refine ⟨Nat.lt_succ_of_lt hlt, fun hg => ?_⟩
    have hnew : v.next = g := Option.some.inj hg
    omega
  | _ => trivial

theorem issued_arm : ∀ g, v.arm.generation = some g → g < v.arm.next := by
  intro g hg
  cases hg
  exact Nat.lt_succ_self _

theorem issued_drop : ∀ g, v.drop.generation = some g → g < v.drop.next := by
  intro g hg
  cases hg

theorem inside_some {g : Guarded} (h : g.Fits id v) :
    ∀ g', some g = some g' → g'.Fits id v := by
  rintro _ ⟨⟩
  exact h

/-- Steps under the lock keep the invariant. -/
theorem Sound.inside_moves {g : Guarded} {next : Option Guarded}
    (sound : Sound id v (some g) calls) (moves : g.Moves v next v') :
    Sound id v' next calls := by
  obtain ⟨issued, inside, outside, orphan, bare⟩ := sound
  have fits : g.Fits id v := inside g rfl
  -- But for a cancellation, no lease is without its component.
  have unleased : g ≠ .cancel → v.registered = false → v.generation = none := by
    intro hne removed
    by_contra hlease
    exact hne (Option.some.inj (orphan removed hlease))
  cases moves with
  | leaves t h =>
    refine ⟨issued, inside_some trivial, outside, ?_, ?_⟩
    · intro removed hlease
      exact absurd (unleased (by simp) removed) hlease
    · intro registered hnone
      rcases bare registered hnone with ⟨g, hg, hmends⟩ | hevict
      · cases hg
        -- Of the first steps only that of an eviction mends, and it has found the lease.
        cases t with
        | evict => exact absurd hnone (h rfl)
        | _ => cases hmends
      · exact .inr hevict
  | adds c lease =>
    refine ⟨issued, inside_some rfl, ?_, ?_, ?_⟩
    · intro call hcall
      exact (outside call hcall).put (unleased (by simp))
    · intro removed
      cases removed
    · intro _ _
      exact .inl ⟨_, rfl, trivial⟩
  | finds t requested h =>
    refine ⟨issued, inside_some h, outside, ?_, ?_⟩
    · intro removed hlease
      exact absurd (unleased (by simp) removed) hlease
    · intro _ _
      exact .inl ⟨_, rfl, trivial⟩
  | takes =>
    refine ⟨issued, inside_some rfl, ?_, ?_, ?_⟩
    · intro call hcall
      exact (outside call hcall).take
    · intro _ _
      rfl
    · intro registered
      cases registered
  | misses h =>
    refine ⟨issued, inside_some h, outside, ?_, ?_⟩
    · intro _ hlease
      exact absurd h hlease
    · intro _ _
      exact .inl ⟨_, rfl, trivial⟩
  | arms requested =>
    have hput : v.registered = true := fits
    refine ⟨issued_arm, inside_some trivial, ?_, ?_, ?_⟩
    · intro call hcall
      exact (outside call hcall).arm
    · intro removed
      cases hput.symm.trans removed
    · intro _ hnone
      cases hnone
  | cancels =>
    have hgone : v.registered = false := fits
    refine ⟨issued_drop, inside_some trivial, ?_, ?_, ?_⟩
    · intro call hcall
      exact (outside call hcall).drop
    · intro _ hlease
      exact absurd rfl hlease
    · intro registered
      cases hgone.symm.trans registered
  | removes =>
    have hnone : v.generation = none := fits
    refine ⟨issued, inside_some trivial, ?_, ?_, ?_⟩
    · intro call hcall
      exact (outside call hcall).take
    · intro _ hlease
      exact absurd hnone hlease
    · intro registered
      cases registered
  | gives =>
    refine ⟨issued, ?_, outside, ?_, ?_⟩
    · intro g hg
      cases hg
    · intro removed hlease
      exact absurd (unleased (by simp) removed) hlease
    · intro registered hnone
      rcases bare registered hnone with ⟨g, hg, hmends⟩ | hevict
      · cases hg
        cases hmends
      · exact .inr hevict

/-- Whether a call acts on a lease that it is meant for: the one that has expired, or one that there
is. -/
def Call.IsProper (v : View) : Call → Prop
  | .lateCancel g => ∀ g', v.generation = some g' → g' = g
  | .lateArm _ => v.generation ≠ none
  | _ => True

/-- Steps without the lock keep the invariant, unless they are stray. -/
theorem Sound.outside_moves {call : Call} {next : Option Call}
    (sound : Sound id v holder (call ::ₘ rest)) (moves : call.Moves v next v')
    (proper : call.IsProper v) : Sound id v' holder (Scene.join next rest) := by
  obtain ⟨issued, inside, outside, orphan, bare⟩ := sound
  obtain ⟨fits, others⟩ := Multiset.forall_mem_cons.mp outside
  -- But for a waiting eviction, no component without a lease relies on the call.
  have bareRest : call ≠ .wait .evict → v.registered = true → v.generation = none →
      (∃ g, holder = some g ∧ g.Mends) ∨ .wait .evict ∈ rest := by
    intro hne registered hnone
    rcases bare registered hnone with hholder | hevict
    · exact .inl hholder
    · exact .inr ((Multiset.mem_cons.mp hevict).resolve_left hne.symm)
  cases moves with
  | waits t => exact ⟨issued, inside, outside, orphan, bare⟩
  | ignores g => exact ⟨issued, inside, others, orphan, bareRest (by simp)⟩
  | begins g h =>
    have fitsNext : (Call.lookUp g).Fits id v := issued g h
    refine ⟨issued, inside, Multiset.forall_mem_cons.mpr ⟨fitsNext, others⟩, orphan, ?_⟩
    intro registered hnone
    exact (bareRest (by simp) registered hnone).imp_right Multiset.mem_cons_of_mem
  | asks g => exact ⟨issued, inside, others, orphan, bareRest (by simp)⟩
  | misses g h =>
    have fitsNext : (Call.lateCancel g).Fits id v := ⟨fits, fun _ => h⟩
    refine ⟨issued, inside, Multiset.forall_mem_cons.mpr ⟨fitsNext, others⟩, orphan, ?_⟩
    intro registered hnone
    exact (bareRest (by simp) registered hnone).imp_right Multiset.mem_cons_of_mem
  | cancels g =>
    refine ⟨issued_drop, ?_, ?_, ?_, ?_⟩
    · intro held hheld
      exact (inside held hheld).congr rfl fun _ => rfl
    · intro other hother
      exact (others other hother).drop
    · intro _ hlease
      exact absurd rfl hlease
    · intro registered _
      cases hgeneration : v.generation with
      | none => exact bareRest (by simp) registered hgeneration
      | some g' =>
        -- The lease that is cancelled belongs to a component that is gone.
        have hown : g' = g := proper g' hgeneration
        rw [hown] at hgeneration
        have hgone : v.registered = false := fits.2 hgeneration
        cases hgone.symm.trans registered
  | passes g outcome => exact ⟨issued, inside, others, orphan, bareRest (by simp)⟩
  | keeps g lease =>
    have fitsNext : (Call.lateArm lease).Fits id v := trivial
    refine ⟨issued, inside, Multiset.forall_mem_cons.mpr ⟨fitsNext, others⟩, orphan, ?_⟩
    intro registered hnone
    exact (bareRest (by simp) registered hnone).imp_right Multiset.mem_cons_of_mem
  | loses g outcome =>
    have fitsNext : (Call.wait .evict).Fits id v.drop := trivial
    have othersNext : ∀ other ∈ rest, other.Fits id v.drop := by
      intro other hother
      exact (others other hother).drop
    refine ⟨issued_drop, ?_, Multiset.forall_mem_cons.mpr ⟨fitsNext, othersNext⟩, ?_, ?_⟩
    · intro held hheld
      exact (inside held hheld).congr rfl fun _ => rfl
    · intro _ hlease
      exact absurd rfl hlease
    · intro _ _
      exact .inr (Multiset.mem_cons_self _ _)
  | arms lease =>
    have leased : v.generation ≠ none := proper
    refine ⟨issued_arm, ?_, ?_, ?_, ?_⟩
    · intro held hheld
      exact (inside held hheld).congr rfl fun hnone => absurd hnone leased
    · intro other hother
      exact (others other hother).arm
    · intro removed _
      exact orphan removed leased
    · intro _ hnone
      cases hnone

end Preservation

/-! ## What can come about without stray steps -/

section Runs

open Scene

variable {tolerated : Stray → Prop} {settings : LeaseSettings} {id : ComponentId} {s : Scene}

/-- A step that is not stray acts on a lease that it is meant for. -/
theorem Call.isProper_of_stray? {s : Stores} {call : Call} (h : call.stray? id s = none) :
    call.IsProper (s.view id) := by
  cases call with
  | lateCancel g =>
    intro g' hg'
    have hgeneration : (s.leases.get? id).map LeaseEntry.generation = some g' := hg'
    obtain ⟨e, he, rfl⟩ := Option.map_eq_some_iff.mp hgeneration
    by_contra hne
    simp only [Call.stray?, he, if_neg hne] at h
    cases h
  | lateArm lease =>
    intro hnone
    have hlease : s.leases.get? id = none := Option.map_eq_none_iff.mp hnone
    simp only [Call.stray?, hlease, Option.isSome_none, Bool.false_eq_true, ↓reduceIte] at h
    cases h
  | _ => trivial

/-- One step, unless it is stray, keeps the invariant. -/
theorem sound_step (strict : ∀ k, ¬ tolerated k) {s' : Scene} (step : Step tolerated id s s')
    (regular : s.stores.Regular) (sound : Sound id (s.stores.view id) s.holder s.calls) :
    s'.stores.Regular ∧ Sound id (s'.stores.view id) s'.holder s'.calls := by
  cases step with
  | start call h => exact ⟨regular, sound.start h⟩
  | enter t => exact ⟨regular, sound.enter⟩
  | inside now g =>
    have own : ∀ c lease, g = .first (.register c lease) → c.id = id := by
      intro c lease hg
      have hfits : g.Fits id _ := sound.inside g rfl
      rw [hg] at hfits
      exact hfits
    obtain ⟨moves, regular'⟩ := Guarded.step_moves now regular g own
    exact ⟨regular', sound.inside_moves moves⟩
  | @outside s holder rest now call h =>
    obtain ⟨moves, regular'⟩ := Call.step_moves now id regular call
    have hstray : call.stray? id s = none := by
      cases hkind : call.stray? id s with
      | none => rfl
      | some k => exact absurd (h k hkind) (strict k)
    exact ⟨regular', sound.outside_moves moves (Call.isProper_of_stray? hstray)⟩

/-- The invariant holds of all that can come about without stray steps. -/
theorem sound_of_reachable (strict : ∀ k, ¬ tolerated k) (h : Reachable tolerated settings id s) :
    s.stores.Regular ∧ Sound id (s.stores.view id) s.holder s.calls := by
  induction h with
  | refl => exact ⟨⟨fun _ _ => rfl, Directory.named_empty⟩, sound_start settings⟩
  | tail _ step ih => exact sound_step strict step ih.1 ih.2

/-- Whether the component is registered exactly if it has a lease. -/
def Scene.Consistent (id : ComponentId) (s : Scene) : Prop :=
  (∃ c, s.stores.registry.directory.get? id = some c) ↔ ∃ e, s.stores.leases.get? id = some e

theorem Sound.consistent (sound : Sound id (s.stores.view id) s.holder s.calls)
    (rest : s.AtRest) : s.Consistent id := by
  obtain ⟨hholder, hcalls⟩ := rest
  have hregistered : (s.stores.view id).registered =
      (s.stores.registry.directory.get? id).isSome := rfl
  have hgeneration : (s.stores.view id).generation =
      (s.stores.leases.get? id).map LeaseEntry.generation := rfl
  unfold Scene.Consistent
  rw [← Option.isSome_iff_exists, ← Option.isSome_iff_exists, ← hregistered]
  constructor
  · intro h
    cases hlease : s.stores.leases.get? id with
    | some e => rfl
    | none =>
      rcases sound.bare h (by rw [hgeneration, hlease]; rfl) with ⟨g, hg, -⟩ | hevict
      · rw [hholder] at hg
        cases hg
      · rw [hcalls] at hevict
        exact absurd hevict (Multiset.notMem_zero _)
  · intro h
    obtain ⟨e, he⟩ := Option.isSome_iff_exists.mp h
    cases hput : (s.stores.view id).registered with
    | true => rfl
    | false =>
      have hcancel := sound.orphan hput (by rw [hgeneration, he]; exact Option.some_ne_none _)
      rw [hholder] at hcancel
      cases hcancel

end Runs

end Interleaving

end Rendezvous
