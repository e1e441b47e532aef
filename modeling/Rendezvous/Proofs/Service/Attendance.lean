import Mathlib.Data.Multiset.AddSub
import Mathlib.Logic.Relation
import Rendezvous.Proofs.Service.Subscription
/-!
# Subscriptions that come and go side by side

The service tells of the owners of its subscriptions as its subscribers, and takes no lock for that:
a subscription is stored and its owner announced, or a subscription is removed, the table is looked
at and the owner withdrawn, and in between others can have a turn. Here these operations are taken
apart into their accesses of the table and of the subscribers (`Attendance.Call`). In a `Scene`
calls begin and go on in any order. An operation that nothing comes between does what it does as a
whole (`Mediator.subscribe_attends` and its like).

As long as one owner is told of though nothing of its is in the table, somebody is about to look or
to withdraw it, and the other way round somebody is about to announce it (`Attendance.Sound`). Two
steps can end this: an announcement after the subscriptions of the owner have gone, and a withdrawal
after the owner has subscribed again (`Attendance.Strays`). At rest subscribers and subscriptions
agree exactly if these steps are never taken (`Attendance.attended_at_rest_iff`).
-/

namespace Rendezvous

namespace Attendance

/-- What the calls share. -/
structure Board where
  table : SubscriptionTable
  /-- The names that the service tells of as its subscribers. -/
  subscribers : SortedSet String

namespace Board

/-- Whether an owner has a subscription in the table. -/
def Holds (b : Board) (owner : ComponentId) : Prop := ∃ s ∈ b.table.list, s.owner = owner

/-- Whether an owner is told of as a subscriber. -/
def Tells (b : Board) (owner : ComponentId) : Prop := b.subscribers.contains owner.text = true

end Board

/-- What a call does next. -/
inductive Call
  | store (s : Subscription)
  /-- Its subscription is stored, and the owner becomes a subscriber. -/
  | announce (owner : ComponentId)
  | remove (id : SubscriptionId)
  /-- The subscription is removed, and it is seen whether the owner has another one. -/
  | look (owner : ComponentId)
  /-- The owner has no other one, and is no subscriber any more. -/
  | withdraw (owner : ComponentId)
  /-- The owner has departed, and all its subscriptions are removed. -/
  | cascade (owner : ComponentId)

/-- One step of a call: what it does next, if it is not done, and the board after it. -/
def Call.step (b : Board) : Call → Option Call × Board
  | .store s => (some (.announce s.owner), { b with table := b.table.insert s })
  | .announce owner => (none, { b with subscribers := b.subscribers.add owner.text })
  | .remove id =>
    match b.table.remove id with
    | (none, _) => (none, b)
    | (some s, table) => (some (.look s.owner), { b with table })
  | .look owner => (if (b.table.ownedBy owner).isEmpty then some (.withdraw owner) else none, b)
  | .withdraw owner => (none, { b with subscribers := b.subscribers.erase owner.text })
  | .cascade owner =>
    let (gone, table) := b.table.removeOwnedBy owner
    (if gone.isEmpty then none else some (.withdraw owner), { b with table })

/-- Whether a call is at its beginning. -/
def Call.IsStart : Call → Prop
  | .store _ | .remove _ | .cascade _ => True
  | _ => False

/-- The steps that act on a table other than that which they were decided on. -/
inductive Stray
  /-- An owner is announced whose subscriptions have gone. -/
  | announce
  /-- An owner is withdrawn that has subscribed again. -/
  | withdraw
deriving DecidableEq

/-- How a step of a call is stray for an owner, if nobody else is about to put it right. -/
inductive Strays (owner : ComponentId) (b : Board) (others : Multiset Call) : Call → Stray → Prop
  | announce (gone : ¬ b.Holds owner) (unlooked : .look owner ∉ others)
      (unwithdrawn : .withdraw owner ∉ others) : Strays owner b others (.announce owner) .announce
  | withdraw (back : b.Holds owner) (unannounced : .announce owner ∉ others) :
      Strays owner b others (.withdraw owner) .withdraw

/-- The board and the calls that are going on. -/
structure Scene where
  board : Board
  calls : Multiset Call

namespace Scene

/-- Nobody has subscribed, and nothing goes on. -/
def start : Scene := ⟨⟨{}, ∅⟩, 0⟩

/-- The calls with one more, unless it is done. -/
def join (next : Option Call) (calls : Multiset Call) : Multiset Call :=
  match next with
  | some call => call ::ₘ calls
  | none => calls

/-- One step of anyone. Of the steps that are stray for an owner only those are taken that are
tolerated. -/
inductive Step (tolerated : Stray → Prop) (owner : ComponentId) : Scene → Scene → Prop
  | start {b : Board} {calls : Multiset Call} (call : Call) (h : call.IsStart) :
      Step tolerated owner ⟨b, calls⟩ ⟨b, call ::ₘ calls⟩
  | go {b : Board} {others : Multiset Call} (call : Call)
      (h : ∀ k, Strays owner b others call k → tolerated k) :
      Step tolerated owner ⟨b, call ::ₘ others⟩ ⟨(call.step b).2, join (call.step b).1 others⟩

/-- Any number of steps. -/
def Steps (tolerated : Stray → Prop) (owner : ComponentId) : Scene → Scene → Prop :=
  Relation.ReflTransGen (Step tolerated owner)

/-- Whether a scene can come about. -/
def Reachable (tolerated : Stray → Prop) (owner : ComponentId) (s : Scene) : Prop :=
  Steps tolerated owner start s

end Scene

open Scene

/-! ## What the accesses do -/

section Accesses

variable {b : Board} {owner : ComponentId}

theorem ownedBy_isEmpty_iff : (b.table.ownedBy owner).isEmpty = true ↔ ¬ b.Holds owner := by
  rw [SubscriptionTable.ownedBy_isEmpty]
  exact ⟨fun none ⟨s, hs, howner⟩ => none s hs howner, fun none s hs howner => none ⟨s, hs, howner⟩⟩

theorem holds_insert (s : Subscription) :
    Board.Holds { b with table := b.table.insert s } owner ↔ b.Holds owner ∨ s.owner = owner := by
  unfold Board.Holds SubscriptionTable.insert
  simp [or_and_right, exists_or]

/-- A removal by name touches the subscriptions of one owner. -/
theorem remove_cases (b : Board) (id : SubscriptionId) :
    (∃ table, b.table.remove id = (none, table)) ∨
    ∃ s table, b.table.remove id = (some s, table) ∧
      (∀ o, Board.Holds { b with table } o → b.Holds o) ∧
      ∀ o, o ≠ s.owner → b.Holds o → Board.Holds { b with table } o := by
  unfold SubscriptionTable.remove
  cases hfind : b.table.list.find? fun s => s.id = id with
  | none => exact .inl ⟨_, rfl⟩
  | some s =>
    refine .inr ⟨s, _, rfl, ?_, ?_⟩
    · rintro o ⟨s', hs', howner⟩
      exact ⟨s', List.mem_of_mem_eraseP hs', howner⟩
    · rintro o other ⟨s', hs', howner⟩
      have kept := SubscriptionTable.mem_eraseP_of_find? hfind hs' fun h => other (h ▸ howner.symm)
      exact ⟨s', kept, howner⟩

theorem holds_removeOwnedBy (gone : ComponentId) :
    Board.Holds { b with table := (b.table.removeOwnedBy gone).2 } owner ↔
      b.Holds owner ∧ owner ≠ gone := by
  unfold Board.Holds SubscriptionTable.removeOwnedBy
  simp only [List.mem_filter, decide_eq_true_eq]
  constructor
  · rintro ⟨s, ⟨hs, hother⟩, rfl⟩
    exact ⟨⟨s, hs, rfl⟩, hother⟩
  · rintro ⟨⟨s, hs, rfl⟩, hother⟩
    exact ⟨s, ⟨hs, hother⟩, rfl⟩

theorem text_inj {o : ComponentId} : o.text = owner.text ↔ o = owner :=
  ⟨congrArg ComponentId.mk, congrArg ComponentId.text⟩

theorem tells_add (o : ComponentId) :
    Board.Tells { b with subscribers := b.subscribers.add o.text } owner ↔
      b.Tells owner ∨ owner = o := by
  unfold Board.Tells SortedSet.add
  rw [SortedMap.contains_insert, Bool.or_eq_true, decide_eq_true_eq, text_inj, or_comm]

theorem tells_erase (o : ComponentId) :
    Board.Tells { b with subscribers := b.subscribers.erase o.text } owner ↔
      b.Tells owner ∧ owner ≠ o := by
  unfold Board.Tells
  rw [SortedMap.contains_erase, Bool.and_eq_true, decide_eq_true_eq, ne_eq, text_inj, and_comm]

end Accesses

/-! ## What keeps subscribers and subscriptions together -/

/-- Whether, for an owner, somebody is about to end every difference between the subscribers and the
table. -/
structure Sound (owner : ComponentId) (s : Scene) : Prop where
  told : s.board.Holds owner → ¬ s.board.Tells owner → .announce owner ∈ s.calls
  held : s.board.Tells owner → ¬ s.board.Holds owner →
    .look owner ∈ s.calls ∨ .withdraw owner ∈ s.calls

theorem sound_start (owner : ComponentId) : Sound owner start where
  told := by
    rintro ⟨s, hs, -⟩
    cases hs
  held := by
    intro told
    cases told

section Steps

variable {owner : ComponentId} {b b' : Board} {others : Multiset Call} {call : Call}

theorem mem_join {next : Option Call} {c : Call} :
    c ∈ join next others ↔ next = some c ∨ c ∈ others := by
  cases next with
  | none => simp [join]
  | some call => simp [join, eq_comm]

/-- What goes on besides still does after a step. -/
theorem mem_join_of_ne {c : Call} (h : c ∈ call ::ₘ others) (ne : c ≠ call)
    (next : Option Call) : c ∈ join next others :=
  mem_join.mpr (.inr ((Multiset.mem_cons.mp h).resolve_left ne))

/-- Whether a call may be what brings subscribers and table together for an owner. -/
def Call.Settles (owner : ComponentId) : Call → Prop
  | .announce o | .look o | .withdraw o => o = owner
  | _ => False

/-- A step that changes nothing for the owner, of a call that has nothing to settle for it. -/
theorem Sound.pass (sound : Sound owner ⟨b, call ::ₘ others⟩) (next : Option Call)
    (holds : b'.Holds owner ↔ b.Holds owner) (tells : b'.Tells owner ↔ b.Tells owner)
    (settled : ¬ call.Settles owner) : Sound owner ⟨b', join next others⟩ := by
  have unannounced : call ≠ .announce owner := fun h => settled (by rw [h]; rfl)
  have unlooked : call ≠ .look owner := fun h => settled (by rw [h]; rfl)
  have unwithdrawn : call ≠ .withdraw owner := fun h => settled (by rw [h]; rfl)
  constructor
  · intro holds' untold
    have announced := sound.told (holds.mp holds') (mt tells.mpr untold)
    exact mem_join_of_ne announced unannounced.symm _
  · intro tells' unheld
    rcases sound.held (tells.mp tells') (mt holds.mpr unheld) with look | withdraw
    · exact .inl (mem_join_of_ne look unlooked.symm _)
    · exact .inr (mem_join_of_ne withdraw unwithdrawn.symm _)

/-- A step that is not stray keeps the owner in order. -/
theorem Sound.go (sound : Sound owner ⟨b, call ::ₘ others⟩)
    (straight : ∀ k, ¬ Strays owner b others call k) :
    Sound owner ⟨(call.step b).2, join (call.step b).1 others⟩ := by
  cases call with
  | store s =>
    by_cases hown : s.owner = owner
    · subst hown
      refine ⟨fun _ _ => mem_join.mpr (.inl rfl), fun _ unheld => ?_⟩
      exact absurd ((holds_insert s).mpr (.inr rfl)) unheld
    · exact sound.pass _ ((holds_insert s).trans (or_iff_left hown)) .rfl id
  | announce o =>
    by_cases hown : o = owner
    · subst hown
      refine ⟨fun _ untold => absurd ((tells_add o).mpr (.inr rfl)) untold, fun _ unheld => ?_⟩
      -- Whoever is announced without a subscription is looked at or withdrawn by somebody else.
      by_contra nobody
      obtain ⟨unlooked, unwithdrawn⟩ := not_or.mp nobody
      exact straight .announce (.announce unheld unlooked unwithdrawn)
    · exact sound.pass none .rfl ((tells_add o).trans (or_iff_left (Ne.symm hown))) hown
  | remove id =>
    rcases remove_cases b id with ⟨table, hremove⟩ | ⟨s, table, hremove, fewer, kept⟩
    · simp only [Call.step, hremove]
      exact sound.pass none .rfl .rfl not_false
    · simp only [Call.step, hremove]
      by_cases hown : s.owner = owner
      · subst hown
        refine ⟨fun holds untold => ?_, fun _ _ => .inl (mem_join.mpr (.inl rfl))⟩
        have announced := sound.told (fewer s.owner holds) untold
        exact mem_join_of_ne announced (by simp) (some (.look s.owner))
      · exact sound.pass _ ⟨fewer owner, kept owner (Ne.symm hown)⟩ .rfl not_false
  | look o =>
    by_cases hown : o = owner
    · subst hown
      refine ⟨fun holds untold => ?_, fun _ unheld => .inr (mem_join.mpr (.inl ?_))⟩
      · have announced := sound.told holds untold
        exact mem_join_of_ne announced (by simp) _
      · exact if_pos (ownedBy_isEmpty_iff.mpr unheld)
    · exact sound.pass _ .rfl .rfl hown
  | withdraw o =>
    by_cases hown : o = owner
    · subst hown
      refine ⟨fun holds _ => ?_, fun tells _ => absurd rfl ((tells_erase o).mp tells).2⟩
      -- Whoever is withdrawn with a subscription is announced by somebody else.
      by_contra nobody
      exact straight .withdraw (.withdraw holds nobody)
    · exact sound.pass none .rfl ((tells_erase o).trans (and_iff_left (Ne.symm hown))) hown
  | cascade o =>
    by_cases hown : o = owner
    · subst hown
      refine ⟨fun holds _ => absurd rfl ((holds_removeOwnedBy o).mp holds).2, fun tells _ => ?_⟩
      by_cases hheld : b.Holds o
      · refine .inr (mem_join.mpr (.inl (if_neg ?_)))
        exact fun none => ownedBy_isEmpty_iff.mp none hheld
      · rcases sound.held tells hheld with look | withdraw
        · exact .inl (mem_join_of_ne look (by simp) _)
        · exact .inr (mem_join_of_ne withdraw (by simp) _)
    · have others := and_iff_left (a := b.Holds owner) (Ne.symm hown)
      exact sound.pass _ ((holds_removeOwnedBy o).trans others) .rfl not_false

theorem Sound.step {tolerated : Stray → Prop} (strict : ∀ k, ¬ tolerated k) {s s' : Scene}
    (sound : Sound owner s) (h : Step tolerated owner s s') : Sound owner s' := by
  cases h with
  | start call _ =>
    constructor
    · exact fun holds untold => Multiset.mem_cons_of_mem (sound.told holds untold)
    · exact fun tells unheld =>
        (sound.held tells unheld).imp Multiset.mem_cons_of_mem Multiset.mem_cons_of_mem
  | go call tolerates => exact sound.go fun k stray => strict k (tolerates k stray)

theorem sound_of_reachable {tolerated : Stray → Prop} (strict : ∀ k, ¬ tolerated k) {s : Scene}
    (h : Reachable tolerated owner s) : Sound owner s := by
  induction h with
  | refl => exact sound_start owner
  | tail _ step ih => exact ih.step strict step

theorem Sound.attended {s : Scene} (sound : Sound owner s) (rest : s.calls = 0) :
    s.board.Tells owner ↔ s.board.Holds owner := by
  constructor
  · intro tells
    by_contra unheld
    have pending := sound.held tells unheld
    simp [rest] at pending
  · intro holds
    by_contra untold
    have pending := sound.told holds untold
    simp [rest] at pending

end Steps

/-! ## Calls that nothing comes between -/

section Alone

variable {tolerated : Stray → Prop} {owner : ComponentId} {b : Board} {others : Multiset Call}

/-- A step that is not stray can always be taken. -/
theorem step_of_straight (call : Call) (straight : ∀ k, ¬ Strays owner b others call k) :
    Step tolerated owner ⟨b, call ::ₘ others⟩ ⟨(call.step b).2, join (call.step b).1 others⟩ :=
  .go call fun k stray => absurd stray (straight k)

theorem steps_announce {o : ComponentId} (holds : b.Holds o) :
    Steps tolerated owner ⟨b, .announce o ::ₘ others⟩
      ⟨{ b with subscribers := b.subscribers.add o.text }, others⟩ := by
  refine .single (step_of_straight (.announce o) fun k stray => ?_)
  cases stray with
  | announce gone _ _ => exact gone holds

theorem steps_withdraw {o : ComponentId} (unheld : ¬ b.Holds o) :
    Steps tolerated owner ⟨b, .withdraw o ::ₘ others⟩
      ⟨{ b with subscribers := b.subscribers.erase o.text }, others⟩ := by
  refine .single (step_of_straight (.withdraw o) fun k stray => ?_)
  cases stray with
  | withdraw back _ => exact unheld back

theorem steps_store (s : Subscription) :
    Steps tolerated owner ⟨b, .store s ::ₘ others⟩
      ⟨{ b with table := b.table.insert s }, .announce s.owner ::ₘ others⟩ :=
  .single (step_of_straight (.store s) fun k stray => by cases stray)

theorem steps_subscribe (s : Subscription) :
    Steps tolerated owner ⟨b, .store s ::ₘ others⟩
      ⟨⟨b.table.insert s, b.subscribers.add s.owner.text⟩, others⟩ :=
  (steps_store s).trans (steps_announce ((holds_insert s).mpr (.inr rfl)))

/-- A subscription is removed that was the last one of its owner, or that was not. -/
theorem steps_remove {id : SubscriptionId} {s : Subscription} {table : SubscriptionTable}
    (hremove : b.table.remove id = (some s, table)) :
    Steps tolerated owner ⟨b, .remove id ::ₘ others⟩
      ⟨{ b with table }, join
        (if (table.ownedBy s.owner).isEmpty then some (.withdraw s.owner) else none) others⟩ := by
  have removed : Step tolerated owner ⟨b, .remove id ::ₘ others⟩
      ⟨(Call.step b (.remove id)).2, join (Call.step b (.remove id)).1 others⟩ :=
    step_of_straight (.remove id) fun k stray => by cases stray
  simp only [Call.step, hremove] at removed
  exact .head removed (.single (step_of_straight (.look s.owner) fun k stray => by cases stray))

theorem steps_cascade (o : ComponentId) :
    Steps tolerated owner ⟨b, .cascade o ::ₘ others⟩
      ⟨⟨(b.table.removeOwnedBy o).2,
        if (b.table.ownedBy o).isEmpty then b.subscribers else b.subscribers.erase o.text⟩,
        others⟩ := by
  have cascaded : Step tolerated owner ⟨b, .cascade o ::ₘ others⟩
      ⟨(Call.step b (.cascade o)).2, join (Call.step b (.cascade o)).1 others⟩ :=
    step_of_straight (.cascade o) fun k stray => by cases stray
  have hgone : (b.table.removeOwnedBy o).1 = b.table.ownedBy o := rfl
  simp only [Call.step, hgone] at cascaded
  split at cascaded
  · next none =>
    rw [if_pos none]
    exact .single cascaded
  · next some =>
    rw [if_neg some]
    have unheld := fun held => ((holds_removeOwnedBy (b := b) o).mp held).2 rfl
    exact .head cascaded (steps_withdraw unheld)

end Alone

end Attendance

/-! ## The operations of the service -/

namespace Mediator

open Attendance Scene

variable {J : Type} {tolerated : Stray → Prop} {owner : ComponentId} {others : Multiset Call}

/-- What the service has of the board. -/
def board (m : Mediator J) : Board := ⟨m.subscriptions, m.self.subscribers⟩

/-- A subscription that nothing comes between is either refused or its call. -/
theorem subscribe_attends (m : Mediator J) (r : SubscribeRequest) :
    (∃ e, m.subscribe r = (.error e, m)) ∨
    ∃ s, r.subscription? s.id = some s ∧ (m.subscribe r).1 = .ok s.id ∧
      Steps tolerated owner ⟨m.board, .store s ::ₘ others⟩ ⟨(m.subscribe r).2.board, others⟩ := by
  rcases m.subscribe_cases r with refused | ⟨s, hs, -, h⟩
  · exact .inl refused
  · rw [h]
    exact .inr ⟨s, hs, rfl, steps_subscribe s⟩

/-- The end of a subscription that nothing comes between is its call. -/
theorem unsubscribe_attends (m : Mediator J) (id : SubscriptionId) :
    Steps tolerated owner ⟨m.board, .remove id ::ₘ others⟩
      ⟨(m.unsubscribe id).2.board, others⟩ := by
  rcases remove_cases m.board id with ⟨table, hremove⟩ | ⟨s, table, hremove, -, -⟩
  · have removed : Step tolerated owner ⟨m.board, .remove id ::ₘ others⟩
        ⟨(Call.step m.board (.remove id)).2, join (Call.step m.board (.remove id)).1 others⟩ :=
      step_of_straight (.remove id) fun k stray => by cases stray
    simp only [Call.step, hremove] at removed
    have hremove' : m.subscriptions.remove id = (none, table) := hremove
    unfold unsubscribe
    rw [hremove']
    exact .single removed
  · have hremove' : m.subscriptions.remove id = (some s, table) := hremove
    have removed : Steps tolerated owner ⟨m.board, .remove id ::ₘ others⟩
        ⟨{ m.board with table }, join
          (if (table.ownedBy s.owner).isEmpty then some (.withdraw s.owner) else none) others⟩ :=
      steps_remove hremove
    unfold unsubscribe
    rw [hremove']
    simp only
    split
    · next none =>
      rw [if_pos none] at removed
      have unheld : ¬ Board.Holds { m.board with table } s.owner := ownedBy_isEmpty_iff.mp none
      exact removed.trans (steps_withdraw unheld)
    · next some =>
      rw [if_neg some] at removed
      exact removed

/-- A departure that nothing comes between is its call. -/
theorem depart_attends [Journal J] (m : Mediator J) (c : Component) :
    Steps tolerated owner ⟨m.board, .cascade c.id ::ₘ others⟩ ⟨(m.depart c).board, others⟩ := by
  have cascaded : Steps tolerated owner ⟨m.board, .cascade c.id ::ₘ others⟩
      ⟨⟨(m.subscriptions.removeOwnedBy c.id).2,
        if (m.subscriptions.ownedBy c.id).isEmpty then m.self.subscribers
        else m.self.subscribers.erase c.id.text⟩, others⟩ :=
    steps_cascade c.id
  rw [depart_eq]
  unfold board at cascaded ⊢
  split
  · next none =>
    rw [if_pos none] at cascaded
    exact cascaded
  · next some =>
    rw [if_neg some] at cascaded
    exact cascaded

end Mediator

namespace Attendance

open Scene

section Runs

variable {tolerated : Stray → Prop}

/-- If an owner may be announced whose subscriptions have gone, it can stay a subscriber without a
subscription: it subscribes, and departs before it is announced. -/
theorem lingering_of_announce (s : Subscription) (h : tolerated .announce) :
    ∃ scene, Reachable tolerated s.owner scene ∧ scene.calls = 0 ∧ scene.board.Tells s.owner ∧
      ¬ scene.board.Holds s.owner := by
  let b : Board := ⟨SubscriptionTable.insert {} s, ∅⟩
  have stored : Reachable tolerated s.owner ⟨b, .announce s.owner ::ₘ 0⟩ :=
    .head (.start (.store s) trivial) (steps_store s)
  let gone : Board := ⟨(b.table.removeOwnedBy s.owner).2,
    if (b.table.ownedBy s.owner).isEmpty then b.subscribers else b.subscribers.erase s.owner.text⟩
  have departed : Reachable tolerated s.owner ⟨gone, .announce s.owner ::ₘ 0⟩ :=
    stored.trans (.head (.start (.cascade s.owner) trivial) (steps_cascade s.owner))
  have unheld : ¬ gone.Holds s.owner :=
    fun held => ((holds_removeOwnedBy (b := b) s.owner).mp held).2 rfl
  have announced : Step tolerated s.owner ⟨gone, .announce s.owner ::ₘ 0⟩
      ⟨{ gone with subscribers := gone.subscribers.add s.owner.text }, 0⟩ := by
    refine .go (.announce s.owner) fun k stray => ?_
    cases stray with
    | announce => exact h
  exact ⟨_, departed.tail announced, rfl, (tells_add s.owner).mpr (.inr rfl), unheld⟩

/-- If an owner may be withdrawn that has subscribed again, it can have a subscription without being
a subscriber: it ends its last subscription, and makes another one before it is withdrawn. -/
theorem unattended_of_withdraw {s s' : Subscription} (same : s'.owner = s.owner)
    (h : tolerated .withdraw) :
    ∃ scene, Reachable tolerated s.owner scene ∧ scene.calls = 0 ∧ scene.board.Holds s.owner ∧
      ¬ scene.board.Tells s.owner := by
  let b : Board := ⟨SubscriptionTable.insert {} s, SortedSet.add ∅ s.owner.text⟩
  have subscribed : Reachable tolerated s.owner ⟨b, 0⟩ :=
    .head (.start (.store s) trivial) (steps_subscribe s)
  have hremove : b.table.remove s.id = (some s, {}) := by
    simp [b, SubscriptionTable.remove, SubscriptionTable.insert]
  -- It is seen that nothing is left.
  have removed : Reachable tolerated s.owner ⟨{ b with table := {} }, .withdraw s.owner ::ₘ 0⟩ :=
    subscribed.trans (.head (.start (.remove s.id) trivial) (steps_remove hremove))
  let again : Board := ⟨SubscriptionTable.insert {} s', b.subscribers.add s'.owner.text⟩
  have back : Reachable tolerated s.owner ⟨again, .withdraw s.owner ::ₘ 0⟩ :=
    removed.trans (.head (.start (.store s') trivial) (steps_subscribe s'))
  have withdrawn : Step tolerated s.owner ⟨again, .withdraw s.owner ::ₘ 0⟩
      ⟨{ again with subscribers := again.subscribers.erase s.owner.text }, 0⟩ := by
    refine .go (.withdraw s.owner) fun k stray => ?_
    cases stray with
    | withdraw => exact h
  refine ⟨_, back.tail withdrawn, rfl, ⟨s', List.mem_singleton.mpr rfl, same⟩, ?_⟩
  exact fun tells => ((tells_erase s.owner).mp tells).2 rfl

end Runs

/-- Subscriptions, their ends and departures run side by side in any way. Whenever nothing goes on
any more, an owner is told of as a subscriber exactly if it has a subscription in the table, exactly
if neither of the stray steps is taken for it. -/
theorem attended_at_rest_iff (owner : ComponentId) (tolerated : Stray → Prop) :
    (∀ s, Reachable tolerated owner s → s.calls = 0 → (s.board.Tells owner ↔ s.board.Holds owner)) ↔
      ∀ k, ¬ tolerated k := by
  let sample : Subscription := { (default : Subscription) with owner }
  constructor
  · intro attended k hk
    cases k with
    | announce =>
      obtain ⟨s, hreachable, hrest, tells, unheld⟩ := lingering_of_announce sample hk
      exact unheld ((attended s hreachable hrest).mp tells)
    | withdraw =>
      have same : sample.owner = sample.owner := rfl
      obtain ⟨s, hreachable, hrest, holds, untold⟩ := unattended_of_withdraw same hk
      exact untold ((attended s hreachable hrest).mpr holds)
  · intro strict s hreachable hrest
    exact (sound_of_reachable strict hreachable).attended hrest

end Attendance

end Rendezvous
