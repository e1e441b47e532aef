import Rendezvous.Proofs.Service.Exclusion
/-!
# Stray steps

One stray step is enough to leave a registered component without a lease, or a lease without a
component, when everything has come to rest. The component is registered and its lease runs out.
While it is being looked up it unregisters and registers again, and the lease of the latter is
cancelled (`Interleaving.bare_of_cancel`). Or its answer is found to be awaited, and it unregisters
before the lease starts anew (`Interleaving.orphan_of_arm`). With this it is settled which steps
have to be excluded (`Interleaving.consistent_at_rest_iff`).
-/

namespace Rendezvous

namespace Interleaving

open Scene

section Calls

variable {tolerated : Stray → Prop} {id : ComponentId} {s : Stores} {rest : Multiset Call}

/-- A component registers without being disturbed. -/
theorem steps_register (tolerated : Stray → Prop) (rest : Multiset Call) (now : Instant)
    (regular : s.Regular) {c : Component} (filled : c.id.isBlank = false) (lease : Option Lease) :
    ∃ d : Directory, d.Named ∧ d.get? c.id = some c ∧
      Steps tolerated c.id ⟨s, none, rest⟩
        ⟨⟨s.registry.after d, (s.leases.arm now c.id lease).2⟩, none, rest⟩ := by
  obtain ⟨d, hinsert, hadd⟩ := Registry.add_of_faultless regular.faultless filled
  have hfirst : (Guarded.first (.register c lease)).step now c.id s =
      (some (.arm lease), ⟨s.registry.after d, s.leases⟩) := by
    simp only [Guarded.step, hadd]
  have hget : d.get? c.id = some c := by
    rw [Directory.get?_insert hinsert, if_pos rfl]
  refine ⟨d, regular.named.insert hinsert, hget, .head (.start (.wait (.register c lease)) rfl) ?_⟩
  exact steps_enter now hfirst (steps_arm now lease)

/-- A component unregisters without being disturbed. -/
theorem steps_unregister (regular : s.Regular) {c : Component}
    (h : s.registry.directory.get? id = some c) :
    Steps tolerated id ⟨s, none, rest⟩
      ⟨⟨s.registry.after (s.registry.directory.remove id).2, (s.leases.cancel id).2⟩, none,
        rest⟩ := by
  have hremove : s.registry.remove id =
      (.ok (some c), s.registry.after (s.registry.directory.remove id).2) := by
    rcases s.registry.remove_cases id with ⟨e, hfail, -⟩ | hremove
    · exact absurd hfail (regular.faultless.not_fails .remove)
    · rw [hremove, h]
  have hfirst : (Guarded.first .unregister).step ⟨0⟩ id s =
      (some .cancel, ⟨s.registry.after (s.registry.directory.remove id).2, s.leases⟩) := by
    simp only [Guarded.step, hremove]
  exact .head (.start (.wait .unregister) trivial) (steps_enter ⟨0⟩ hfirst steps_cancel)

/-- The leases after the timer of a lease has fired. -/
def handshaking (t : LeaseTable) (id : ComponentId) (e : LeaseEntry) : LeaseTable :=
  { t with entries := t.entries.insert id { e with phase := .handshaking } }

theorem get?_handshaking (t : LeaseTable) (id : ComponentId) (e : LeaseEntry) :
    (handshaking t id e).get? id = some { e with phase := .handshaking } :=
  SortedMap.get?_insert_self _ _ _

/-- The handling of an expiry gets as far as to the handshake. -/
theorem steps_begin {e : LeaseEntry} (h : s.leases.get? id = some e) (active : e.phase = .active) :
    Steps tolerated id ⟨s, none, rest⟩
      ⟨⟨s.registry, handshaking s.leases id e⟩, none, .lookUp e.generation ::ₘ rest⟩ := by
  have hstep : (Call.expiry e.generation).step ⟨0⟩ id s =
      (some (.lookUp e.generation), ⟨s.registry, handshaking s.leases id e⟩) := by
    simp only [Call.step, LeaseTable.beginHandshake, h, active, and_self, ↓reduceIte]
    rfl
  exact .head (.start (.expiry e.generation) trivial) (steps_outside ⟨0⟩ rfl hstep .refl)

theorem get_eq (regular : s.Regular) (id : ComponentId) :
    s.registry.get id =
      (.ok (s.registry.directory.get? id), s.registry.after s.registry.directory) := by
  rcases s.registry.get_cases id with ⟨e, hfail, -⟩ | h
  · exact absurd hfail (regular.faultless.not_fails .get)
  · exact h

/-- A registered component is asked. -/
theorem steps_ask (regular : s.Regular) {c : Component}
    (h : s.registry.directory.get? id = some c) (g : Nat) :
    Steps tolerated id ⟨s, none, .lookUp g ::ₘ rest⟩
      ⟨⟨s.registry.after s.registry.directory, s.leases⟩, none, rest⟩ := by
  have hstep : (Call.lookUp g).step ⟨0⟩ id s =
      (none, ⟨s.registry.after s.registry.directory, s.leases⟩) := by
    simp only [Call.step, get_eq regular, h]
  exact steps_outside ⟨0⟩ rfl hstep .refl

/-- A component that is not registered is not found. -/
theorem steps_miss (regular : s.Regular) (h : s.registry.directory.get? id = none) (g : Nat) :
    Steps tolerated id ⟨s, none, .lookUp g ::ₘ rest⟩
      ⟨⟨s.registry.after s.registry.directory, s.leases⟩, none, .lateCancel g ::ₘ rest⟩ := by
  have hstep : (Call.lookUp g).step ⟨0⟩ id s =
      (some (.lateCancel g), ⟨s.registry.after s.registry.directory, s.leases⟩) := by
    simp only [Call.step, get_eq regular, h]
  exact steps_outside ⟨0⟩ rfl hstep .refl

end Calls

section Runs

variable {tolerated : Stray → Prop}

/-- A component has registered, and its lease has run out and been found to have. -/
theorem steps_expired (tolerated : Stray → Prop) (settings : LeaseSettings) (c : Component)
    (filled : c.id.isBlank = false) :
    ∃ (s : Stores) (e : LeaseEntry), s.Regular ∧ s.registry.directory.get? c.id = some c ∧
      s.leases.get? c.id = some e ∧ e.phase = .handshaking ∧
      e.generation < s.leases.nextGeneration ∧
      Reachable tolerated settings c.id ⟨s, none, .lookUp e.generation ::ₘ 0⟩ := by
  have regular : (start settings).stores.Regular := ⟨fun _ _ => rfl, Directory.named_empty⟩
  obtain ⟨d, named, hget, hregister⟩ := steps_register tolerated 0 ⟨0⟩ regular filled none
  let leases := ((start settings).stores.leases.arm ⟨0⟩ c.id none).2
  let e := ((start settings).stores.leases.arm ⟨0⟩ c.id none).1
  have harmed : leases.get? c.id = some e := by
    show ((start settings).stores.leases.arm ⟨0⟩ c.id none).2.get? c.id = _
    rw [LeaseTable.get?_arm, if_pos rfl]
  refine ⟨⟨(start settings).stores.registry.after d, handshaking leases c.id e⟩,
    { e with phase := .handshaking }, ⟨regular.faultless, named⟩, hget,
    get?_handshaking leases c.id e, rfl, Nat.lt_succ_self _, ?_⟩
  exact hregister.trans (steps_begin harmed rfl)

/-- If leases of later generations may be cancelled, a component that has registered again can be
left without a lease. -/
theorem bare_of_cancel (settings : LeaseSettings) {c : Component} (filled : c.id.isBlank = false)
    {tolerated : Stray → Prop} (h : tolerated .cancel) :
    ∃ s, Reachable tolerated settings c.id s ∧ s.AtRest ∧
      s.stores.registry.directory.get? c.id = some c ∧ s.stores.leases.get? c.id = none := by
  obtain ⟨s, e, regular, hget, hlease, -, hissued, hexpired⟩ :=
    steps_expired tolerated settings c filled
  -- It unregisters, and is not found any more.
  let gone : Stores :=
    ⟨s.registry.after (s.registry.directory.remove c.id).2, (s.leases.cancel c.id).2⟩
  have regularGone : gone.Regular := ⟨regular.faultless, regular.named.remove c.id⟩
  have hgone : gone.registry.directory.get? c.id = none := by
    show (s.registry.directory.remove c.id).2.get? c.id = none
    rw [Directory.get?_remove, if_pos rfl]
  let missed : Stores := ⟨gone.registry.after gone.registry.directory, gone.leases⟩
  have regularMissed : missed.Regular := regularGone.after regularGone.named
  -- It registers again, and the lease of that is cancelled.
  obtain ⟨d, -, hagain, hregister⟩ :=
    steps_register tolerated (.lateCancel e.generation ::ₘ 0) ⟨0⟩ regularMissed filled none
  let back : Stores :=
    ⟨missed.registry.after d, (missed.leases.arm ⟨0⟩ c.id none).2⟩
  have hnext : missed.leases.nextGeneration = s.leases.nextGeneration :=
    LeaseTable.nextGeneration_cancel s.leases c.id
  have hback : back.leases.get? c.id = some (missed.leases.arm ⟨0⟩ c.id none).1 := by
    show (missed.leases.arm ⟨0⟩ c.id none).2.get? c.id = _
    rw [LeaseTable.get?_arm, if_pos rfl]
  have hlater : (missed.leases.arm ⟨0⟩ c.id none).1.generation ≠ e.generation := by
    show missed.leases.nextGeneration ≠ e.generation
    omega
  have hstray : ∀ k, (Call.lateCancel e.generation).stray? c.id back = some k → tolerated k := by
    intro k hk
    simp only [Call.stray?, hback, if_neg hlater] at hk
    cases hk
    exact h
  have hcancel : Step tolerated c.id ⟨back, none, .lateCancel e.generation ::ₘ 0⟩
      ⟨⟨back.registry, (back.leases.cancel c.id).2⟩, none, 0⟩ :=
    .outside ⟨0⟩ (.lateCancel e.generation) hstray
  refine ⟨⟨⟨back.registry, (back.leases.cancel c.id).2⟩, none, 0⟩, ?_, ⟨rfl, rfl⟩, hagain, ?_⟩
  · exact (((hexpired.trans (steps_unregister regular hget)).trans
      (steps_miss regularGone hgone e.generation)).trans hregister).tail hcancel
  · show (back.leases.cancel c.id).2.get? c.id = none
    rw [LeaseTable.get?_cancel, if_pos rfl]

/-- If a lease may start anew where there is none, a component that has unregistered can leave one
behind. -/
theorem orphan_of_arm (settings : LeaseSettings) {c : Component} (filled : c.id.isBlank = false)
    {tolerated : Stray → Prop} (h : tolerated .arm) :
    ∃ s, Reachable tolerated settings c.id s ∧ s.AtRest ∧
      s.stores.registry.directory.get? c.id = none ∧ ∃ e, s.stores.leases.get? c.id = some e := by
  obtain ⟨s, e, regular, hget, hlease, hphase, -, hexpired⟩ :=
    steps_expired tolerated settings c filled
  let lease : Lease := ⟨⟨0⟩⟩
  -- It is asked, and its answer is found to be awaited.
  let asked : Stores := ⟨s.registry.after s.registry.directory, s.leases⟩
  have regularAsked : asked.Regular := regular.after regular.named
  have hawaiting : asked.leases.isAwaiting ⟨c.id, e.generation⟩ = true :=
    LeaseTable.isAwaiting_iff.mpr ⟨e, hlease, rfl, hphase⟩
  have hanswer : (Call.completion e.generation (.renewed lease)).step ⟨0⟩ c.id asked =
      (some (.lateArm lease), asked) := by
    simp only [Call.step, hawaiting, ↓reduceIte]
  have hkept : Steps tolerated c.id ⟨asked, none, 0⟩ ⟨asked, none, .lateArm lease ::ₘ 0⟩ :=
    .head (.start (.completion e.generation (.renewed lease)) trivial)
      (steps_outside ⟨0⟩ rfl hanswer .refl)
  -- It unregisters, and the lease starts anew.
  let gone : Stores :=
    ⟨asked.registry.after (asked.registry.directory.remove c.id).2, (asked.leases.cancel c.id).2⟩
  have hunleased : gone.leases.get? c.id = none := by
    show (asked.leases.cancel c.id).2.get? c.id = none
    rw [LeaseTable.get?_cancel, if_pos rfl]
  have hstray : ∀ k, (Call.lateArm lease).stray? c.id gone = some k → tolerated k := by
    intro k hk
    simp only [Call.stray?, hunleased, Option.isSome_none, Bool.false_eq_true, ↓reduceIte] at hk
    cases hk
    exact h
  have harm : Step tolerated c.id ⟨gone, none, .lateArm lease ::ₘ 0⟩
      ⟨⟨gone.registry, (gone.leases.arm ⟨0⟩ c.id (some lease)).2⟩, none, 0⟩ :=
    .outside ⟨0⟩ (.lateArm lease) hstray
  refine ⟨⟨⟨gone.registry, (gone.leases.arm ⟨0⟩ c.id (some lease)).2⟩, none, 0⟩, ?_, ⟨rfl, rfl⟩,
    ?_, (gone.leases.arm ⟨0⟩ c.id (some lease)).1, ?_⟩
  · exact (((hexpired.trans (steps_ask regular hget e.generation)).trans hkept).trans
      (steps_unregister regularAsked hget)).tail harm
  · show (asked.registry.directory.remove c.id).2.get? c.id = none
    rw [Directory.get?_remove, if_pos rfl]
  · show (gone.leases.arm ⟨0⟩ c.id (some lease)).2.get? c.id = _
    rw [LeaseTable.get?_arm, if_pos rfl]

end Runs

/-- The calls about one component run side by side in any way. Whenever nothing goes on any more,
the component is registered exactly if it has a lease, exactly if neither of the stray steps is
taken: no lease is cancelled that was armed after the one that had expired, and none is armed where
there is none any more. -/
theorem consistent_at_rest_iff (settings : LeaseSettings) {id : ComponentId}
    (filled : id.isBlank = false) (tolerated : Stray → Prop) :
    (∀ s, Reachable tolerated settings id s → s.AtRest → s.Consistent id) ↔
      ∀ k, ¬ tolerated k := by
  let c : Component := { id, kind := .widget }
  have filled' : c.id.isBlank = false := filled
  constructor
  · intro consistent k hk
    cases k with
    | cancel =>
      obtain ⟨s, hreachable, hrest, hput, hnone⟩ := bare_of_cancel settings filled' hk
      obtain ⟨e, he⟩ := (consistent s hreachable hrest).mp ⟨c, hput⟩
      cases hnone.symm.trans he
    | arm =>
      obtain ⟨s, hreachable, hrest, hnone, he⟩ := orphan_of_arm settings filled' hk
      obtain ⟨c', hput⟩ := (consistent s hreachable hrest).mpr he
      cases hnone.symm.trans hput
  · intro strict s hreachable hrest
    exact (sound_of_reachable strict hreachable).2.consistent hrest

/-- As the service takes all steps, a lamp can come to be registered without a lease, or to have one
without being registered. -/
theorem consistent_at_rest_iff_lamp :
    (⟨"lamp"⟩ : ComponentId).isBlank = false ∧
    ¬ ∀ s, Reachable (fun _ => True) {} ⟨"lamp"⟩ s → s.AtRest → s.Consistent ⟨"lamp"⟩ := by
  have filled : (⟨"lamp"⟩ : ComponentId).isBlank = false := by
    show Text.isBlankText "lamp" = false
    decide
  refine ⟨filled, fun consistent => ?_⟩
  exact (consistent_at_rest_iff {} filled fun _ => True).mp consistent .cancel trivial

end Interleaving

end Rendezvous
