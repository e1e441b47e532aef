import Rendezvous.Proofs.Service.Effect
/-!
# Which subscriptions stand

The table of subscriptions is what a history has left of those that it issued: each stands until it
is unsubscribed or its owner departs, and nothing else ends one
(`Mediator.subscriptions_perform`). The subscribers that the service tells of are the owners of the
subscriptions in the table. Three operations see to that, each under a condition of its own; what
they have in common is that they take away subscriptions of one owner only
(`SubscriptionTable.owners_without`).

Whether a component has departed is read off the directory before and after an operation, so it does
not matter which operation took it out.
-/

namespace Rendezvous

namespace SubscriptionTable

/-- The names of those who have a subscription. -/
def owners (t : SubscriptionTable) : SortedSet String :=
  .ofList (t.list.map fun s => s.owner.text)

theorem contains_owners {t : SubscriptionTable} {text : String} :
    t.owners.contains text = true ↔ ∃ s ∈ t.list, s.owner.text = text := by
  rw [owners, SortedSet.contains_ofList, List.mem_map]

theorem owners_insert (t : SubscriptionTable) (s : Subscription) :
    (t.insert s).owners = t.owners.add s.owner.text := by
  unfold owners insert SortedSet.ofList
  rw [List.map_append, List.foldl_append]
  rfl

theorem ownedBy_isEmpty {t : SubscriptionTable} {owner : ComponentId} :
    (t.ownedBy owner).isEmpty = true ↔ ∀ s ∈ t.list, s.owner ≠ owner := by
  rw [List.isEmpty_iff, ownedBy, List.filter_eq_nil_iff]
  simp

/-- A table from which subscriptions of one owner have been taken has the same owners, without this
one if nothing of its is left. -/
theorem owners_without {t t' : SubscriptionTable} {owner : ComponentId}
    (kept : ∀ s ∈ t'.list, s ∈ t.list) (others : ∀ s ∈ t.list, s.owner ≠ owner → s ∈ t'.list) :
    t'.owners =
      if (t'.ownedBy owner).isEmpty then t.owners.erase owner.text else t.owners := by
  refine SortedSet.ext_contains fun text => ?_
  split
  · next hnone =>
    rw [SortedMap.contains_erase, Bool.eq_iff_iff, Bool.and_eq_true, decide_eq_true_eq,
      contains_owners, contains_owners]
    constructor
    · rintro ⟨s, hs, rfl⟩
      have hother : s.owner ≠ owner := ownedBy_isEmpty.mp hnone s hs
      exact ⟨fun htext => hother (congrArg ComponentId.mk htext), s, kept s hs, rfl⟩
    · rintro ⟨hother, s, hs, rfl⟩
      exact ⟨s, others s hs fun howner => hother (congrArg ComponentId.text howner), rfl⟩
  · next hsome =>
    rw [Bool.eq_iff_iff, contains_owners, contains_owners]
    constructor
    · rintro ⟨s, hs, rfl⟩
      exact ⟨s, kept s hs, rfl⟩
    · rintro ⟨s, hs, rfl⟩
      by_cases howner : s.owner = owner
      · obtain ⟨s', hs', howner'⟩ : ∃ s' ∈ t'.list, s'.owner = owner := by
          simpa using mt ownedBy_isEmpty.mpr hsome
        exact ⟨s', hs', by rw [howner', howner]⟩
      · exact ⟨s, others s hs howner, rfl⟩

/-- Of the members of a list only the first that is found is erased. -/
theorem mem_eraseP_of_find? {l : List Subscription} {p : Subscription → Bool}
    {s s' : Subscription} (found : l.find? p = some s) (mem : s' ∈ l) (other : s' ≠ s) :
    s' ∈ l.eraseP p := by
  obtain ⟨hp, before, after, rfl, hbefore⟩ := List.find?_eq_some_iff_append.mp found
  rw [List.eraseP_append_right _ fun s hs => by simpa using hbefore s hs,
    List.eraseP_cons_of_pos hp]
  rcases List.mem_append.mp mem with h | h
  · exact List.mem_append_left _ h
  · exact List.mem_append_right _ ((List.mem_cons.mp h).resolve_left other)

/-- Where names are distinct, removing by name is keeping the other names. -/
theorem eraseP_eq_filter {l : List Subscription} (distinct : (l.map Subscription.id).Nodup)
    (id : SubscriptionId) : (l.eraseP fun s => s.id = id) = l.filter fun s => s.id ≠ id := by
  induction l with
  | nil => rfl
  | cons s rest ih =>
    rw [List.map_cons, List.nodup_cons] at distinct
    obtain ⟨hnew, hrest⟩ := distinct
    by_cases hs : s.id = id
    · have hothers : ∀ s' ∈ rest, s'.id ≠ id := by
        intro s' hs' hid
        exact hnew (hs ▸ hid ▸ List.mem_map_of_mem hs')
      have hall : (rest.filter fun s' => s'.id ≠ id) = rest :=
        List.filter_eq_self.mpr fun s' hs' => by simpa using hothers s' hs'
      simp only [List.eraseP_cons, hs, decide_true, cond_true, List.filter_cons, ne_eq,
        not_true_eq_false, decide_false, Bool.false_eq_true, if_false]
      exact hall.symm
    · simp only [List.eraseP_cons, hs, decide_false, cond_false, List.filter_cons, ne_eq,
        not_false_eq_true, decide_true, if_true]
      rw [ih hrest]

end SubscriptionTable

/-- The subscription that is made of a request under the given name. -/
def SubscribeRequest.subscription? (r : SubscribeRequest) (id : SubscriptionId) :
    Option Subscription :=
  (Callback.ofText? r.callback).bind fun callback =>
    r.query.map fun query => ⟨id, r.subscriber, r.target, callback, r.full, query⟩

namespace Mediator

variable {J : Type}

/-- A subscription is either refused or made as it is asked for. -/
theorem subscribe_cases (m : Mediator J) (r : SubscribeRequest) :
    (∃ e, m.subscribe r = (.error e, m)) ∨
    ∃ s, r.subscription? s.id = some s ∧ s.id = m.subscriptionNames m.subscribed ∧
      m.subscribe r = (.ok s.id, { m with
        subscribed := m.subscribed + 1
        subscriptions := m.subscriptions.insert s
        self := { m.self with subscribers := m.self.subscribers.add s.owner.text } }) := by
  unfold subscribe Callback.ofText
  cases hcallback : Callback.ofText? r.callback with
  | none => exact .inl ⟨_, rfl⟩
  | some callback =>
    cases hquery : r.query with
    | none => exact .inl ⟨_, rfl⟩
    | some query =>
      cases hvalid : query.validate with
      | error e => exact .inl ⟨.invalidQuery e, by simp only [hvalid]⟩
      | ok _ =>
        refine .inr ⟨⟨m.subscriptionNames m.subscribed, r.subscriber, r.target, callback, r.full,
          query⟩, ?_, rfl, by simp only [hvalid]; rfl⟩
        rw [SubscribeRequest.subscription?, hcallback, hquery]
        rfl

theorem unsubscribe_cases (m : Mediator J) (id : SubscriptionId) :
    ((∀ s ∈ m.subscriptions.list, s.id ≠ id) ∧
      m.unsubscribe id = (.error (.unknownSubscriber id), m)) ∨
    ∃ s ∈ m.subscriptions.list, s.id = id ∧
      ∃ t : SubscriptionTable, t.list = (m.subscriptions.list.eraseP fun s => s.id = id) ∧
        (∀ s' ∈ m.subscriptions.list, s'.owner ≠ s.owner → s' ∈ t.list) ∧
        m.unsubscribe id = (.ok (), { m with
          subscriptions := t
          self := if (t.ownedBy s.owner).isEmpty then (m.dropSubscriber s.owner).self
            else m.self }) := by
  unfold unsubscribe SubscriptionTable.remove
  cases hfind : m.subscriptions.list.find? fun s => s.id = id with
  | none =>
    refine .inl ⟨fun s hs => ?_, rfl⟩
    simpa using List.find?_eq_none.mp hfind s hs
  | some s =>
    have hid := List.find?_some hfind
    refine .inr ⟨s, List.mem_of_find?_eq_some hfind, by simpa using hid, ⟨_⟩, rfl, ?_, ?_⟩
    · intro s' hs' howner
      exact SubscriptionTable.mem_eraseP_of_find? hfind hs' fun h => howner (h ▸ rfl)
    · simp only
      split <;> rfl

/-- The names that have been given to subscriptions. -/
def given (m : Mediator J) : List SubscriptionId :=
  (List.range m.subscribed).map m.subscriptionNames

/-- Whether the service tells of the owners of its subscriptions as its subscribers, and its
subscriptions stand in the order of their names. -/
structure Subscribed (m : Mediator J) : Prop where
  attended : m.self.subscribers = m.subscriptions.owners
  numbered : (m.subscriptions.list.map Subscription.id).Sublist m.given

theorem subscribed_new (settings : MediatorSettings) (journal : J) (cursorNames : Nat → String)
    (subscriptionNames : Nat → SubscriptionId) :
    (new settings journal cursorNames subscriptionNames).Subscribed where
  attended := rfl
  numbered := List.Sublist.refl _

theorem Subscribed.frame {m m' : Mediator J} (h : m.Subscribed) (hself : m'.self = m.self)
    (hsubscriptions : m'.subscriptions = m.subscriptions) (hgiven : m'.given = m.given) :
    m'.Subscribed where
  attended := by
    rw [hself, hsubscriptions]
    exact h.attended
  numbered := by
    rw [hsubscriptions, hgiven]
    exact h.numbered

theorem Subscribed.subscribe {m : Mediator J} (h : m.Subscribed) (r : SubscribeRequest) :
    (m.subscribe r).2.Subscribed := by
  rcases m.subscribe_cases r with ⟨e, heq⟩ | ⟨s, -, hid, heq⟩
  · rw [heq]
    exact h
  · rw [heq]
    constructor
    · show m.self.subscribers.add s.owner.text = (m.subscriptions.insert s).owners
      rw [SubscriptionTable.owners_insert, h.attended]
    · show ((m.subscriptions.list ++ [s]).map Subscription.id).Sublist
        ((List.range (m.subscribed + 1)).map m.subscriptionNames)
      rw [List.map_append, List.range_succ, List.map_append, List.map_singleton,
        List.map_singleton, hid]
      exact h.numbered.append_right _

theorem Subscribed.unsubscribe {m : Mediator J} (h : m.Subscribed) (id : SubscriptionId) :
    (m.unsubscribe id).2.Subscribed := by
  rcases m.unsubscribe_cases id with ⟨-, heq⟩ | ⟨s, -, -, t, ht, others, heq⟩
  · rw [heq]
    exact h
  · have hsub : t.list.Sublist m.subscriptions.list := by
      rw [ht]
      exact List.eraseP_sublist
    have howners := SubscriptionTable.owners_without (fun s hs => hsub.subset hs) others
    rw [heq]
    constructor
    · show Component.subscribers (if _ then _ else _) = t.owners
      rw [howners]
      split
      · show m.self.subscribers.erase s.owner.text = _
        rw [h.attended]
      · exact h.attended
    · exact (hsub.map _).trans h.numbered

section Journaled

variable [Journal J]

theorem Subscribed.depart {m : Mediator J} (h : m.Subscribed) (c : Component) :
    (m.depart c).Subscribed := by
  have hsub : (m.subscriptions.removeOwnedBy c.id).2.list.Sublist m.subscriptions.list :=
    List.filter_sublist
  have others : ∀ s ∈ m.subscriptions.list, s.owner ≠ c.id →
      s ∈ (m.subscriptions.removeOwnedBy c.id).2.list :=
    fun s hs howner => List.mem_filter.mpr ⟨hs, by simpa using howner⟩
  have hnone : ((m.subscriptions.removeOwnedBy c.id).2.ownedBy c.id).isEmpty = true :=
    SubscriptionTable.ownedBy_isEmpty.mpr fun s hs => by simpa using (List.mem_filter.mp hs).2
  have howners := SubscriptionTable.owners_without (fun s hs => hsub.subset hs) others
  rw [if_pos hnone] at howners
  rw [depart_eq]
  constructor
  · show Component.subscribers (if _ then _ else _) = _
    rw [howners]
    split
    · next hempty =>
      -- Nothing goes, so the owner is none of the subscribers anyway.
      have hall := SubscriptionTable.ownedBy_isEmpty.mp hempty
      have hsame : (m.subscriptions.removeOwnedBy c.id).2 = m.subscriptions :=
        congrArg SubscriptionTable.mk
          (List.filter_eq_self.mpr fun s hs => by simpa using hall s hs)
      rw [← howners, hsame]
      exact h.attended
    · show m.self.subscribers.erase c.id.text = _
      rw [h.attended]
  · exact (hsub.map _).trans h.numbered

/-- Every operation keeps the subscribers and the names in step with the table. -/
theorem Subscribed.perform {m : Mediator J} (h : m.Subscribed) (named : m.directory.Named)
    (now : Instant) (o : Operation) : (m.perform now o).Subscribed := by
  by_cases ho : o.concern = .subscriptions
  · cases o with
    | subscribe r => exact h.subscribe r
    | unsubscribe id => exact h.unsubscribe id
    | _ => cases ho
  · have effect := m.perform_effect now named o
    generalize m.perform now o = m' at effect ⊢
    cases effect with
    | none => exact h.frame rfl rfl rfl
    | registered => exact h.frame rfl rfl rfl
    | updated => exact h.frame rfl rfl rfl
    | @departed _ registry leases c _ _ =>
      have called : Subscribed { m with registry, leases } := h.frame rfl rfl rfl
      exact called.depart c
    | reinstated => exact h.frame rfl rfl rfl
    | subscriptions hconcern => exact absurd hconcern ho
    | pages => exact h.frame rfl rfl rfl
    | requests => exact h.frame rfl rfl rfl

/-- Names are given one after the other. -/
theorem given_perform {m : Mediator J} (named : m.directory.Named) (now : Instant)
    (o : Operation) : m.given.Sublist (m.perform now o).given := by
  by_cases ho : o.concern = .subscriptions
  · cases o with
    | subscribe r =>
      show m.given.Sublist (m.subscribe r).2.given
      rcases m.subscribe_cases r with ⟨e, h⟩ | ⟨s, -, -, h⟩
      · rewrite [h]
        exact List.Sublist.refl _
      · rw [h]
        exact (List.range_sublist.mpr (Nat.le_succ _)).map _
    | unsubscribe id =>
      show m.given.Sublist (m.unsubscribe id).2.given
      rcases m.unsubscribe_cases id with ⟨-, h⟩ | ⟨s, -, -, t, -, -, h⟩
      · rewrite [h]
        exact List.Sublist.refl _
      · rewrite [h]
        exact List.Sublist.refl _
    | _ => cases ho
  · have effect := m.perform_effect now named o
    generalize m.perform now o = m' at effect ⊢
    cases effect with
    | departed =>
      rewrite [depart_eq]
      exact List.Sublist.refl _
    | subscriptions hconcern => exact absurd hconcern ho
    | _ => exact List.Sublist.refl _

theorem given_after {m : Mediator J} (named : m.directory.Named)
    (history : List (Instant × Operation)) : m.given.Sublist (m.after history).given := by
  induction history generalizing m with
  | nil => exact List.Sublist.refl _
  | cons o rest ih =>
    exact (given_perform named o.1 o.2).trans (ih (named_perform named o.1 o.2))

theorem Subscribed.after {m : Mediator J} (h : m.Subscribed) (named : m.directory.Named)
    (history : List (Instant × Operation)) : (m.after history).Subscribed := by
  induction history generalizing m with
  | nil => exact h
  | cons o rest ih => exact ih (h.perform named o.1 o.2) (named_perform named o.1 o.2)

end Journaled

/-! ## What is left of the subscriptions that were issued -/

/-- The subscription that an operation issues. -/
def issued (m : Mediator J) : Operation → Option Subscription
  | .subscribe r => (m.subscribe r).1.toOption.bind r.subscription?
  | _ => none

/-- Whether an operation unsubscribes a subscription. -/
def Operation.unsubscribes (s : Subscription) : Operation → Bool
  | .unsubscribe id => s.id = id
  | _ => false

section Journaled

variable [Journal J]

/-- Whether a subscription is neither unsubscribed in a history nor owned by a component that
departs in it. -/
def stands (m : Mediator J) (s : Subscription) : List (Instant × Operation) → Bool
  | [] => true
  | o :: rest =>
    let m' := m.perform o.1 o.2
    !o.2.unsubscribes s && !m.departed m' s.owner && m'.stands s rest

/-- The subscriptions that a history issues and that stand at its end, in the order in which they
are issued. -/
def upheld (m : Mediator J) : List (Instant × Operation) → List Subscription
  | [] => []
  | o :: rest =>
    let m' := m.perform o.1 o.2
    (m.issued o.2).toList.filter (fun s => m'.stands s rest) ++ m'.upheld rest

/-- An operation that is not about subscriptions ends those of a component that departs. -/
theorem Effect.subscriptions_list {now : Instant} {m m' : Mediator J} {o : Operation}
    (h : Effect now m o m') (named : m.directory.Named) (ho : o.concern ≠ .subscriptions) :
    m'.subscriptions.list = m.subscriptions.list.filter fun s => !m.departed m' s.owner := by
  have untouched : ∀ {m' : Mediator J}, m'.subscriptions = m.subscriptions →
      (∀ id, m.directory.contains id = true → m'.directory.contains id = true) →
      m'.subscriptions.list = m.subscriptions.list.filter fun s => !m.departed m' s.owner := by
    intro m' hsame stays
    rw [hsame, eq_comm, List.filter_eq_self]
    intro s _
    rw [departed_of_stays stays]
    rfl
  cases h with
  | none same _ => exact untouched rfl (stays_of_same same)
  | @registered c lease d previous inserted =>
    refine untouched rfl fun id hid => ?_
    have hkept := Directory.contains_insertAll hid [c]
    rwa [List.map_singleton, List.foldl_cons, List.foldl_nil,
      Directory.apply_insert inserted] at hkept
  | updated changed =>
    exact untouched rfl fun id hid => (Directory.contains_update named changed id).trans hid
  | @departed _ registry leases c known gone =>
    have hdeparted : ∀ id, m.departed (depart { m with registry, leases } c) id =
        decide (id = c.id) := by
      refine departed_of_remove known ?_
      rw [depart_eq]
      exact gone
    simp only [hdeparted]
    rw [depart_eq]
    exact List.filter_congr fun s _ => decide_not
  | @reinstated _ cs registry leases ids _ inserted =>
    refine untouched rfl fun id hid => ?_
    show registry.directory.contains id = true
    rw [inserted]
    exact Directory.contains_insertAll hid cs
  | subscriptions hconcern => exact absurd hconcern ho
  | pages _ same => exact untouched rfl (stays_of_same same)
  | requests => exact untouched rfl fun _ hid => hid

/-- Nobody departs when someone subscribes or unsubscribes. -/
theorem departed_of_concern (m : Mediator J) (now : Instant) {o : Operation}
    (ho : o.concern = .subscriptions) (id : ComponentId) :
    m.departed (m.perform now o) id = false := by
  refine departed_of_stays (fun id' known => ?_) id
  cases o with
  | subscribe r =>
    show (m.subscribe r).2.directory.contains id' = true
    rw [directory, (m.subscribe_frame r).1]
    exact known
  | unsubscribe s =>
    show (m.unsubscribe s).2.directory.contains id' = true
    rw [directory, (m.unsubscribe_frame s).1]
    exact known
  | _ => cases ho

/-- An operation ends subscriptions by their name or because their owner departs, and the one that
it issues comes last. -/
theorem subscriptions_perform {m : Mediator J} (named : m.directory.Named)
    (distinct : (m.subscriptions.list.map Subscription.id).Nodup) (now : Instant)
    (o : Operation) :
    (m.perform now o).subscriptions.list =
      (m.subscriptions.list.filter fun s =>
        !o.unsubscribes s && !m.departed (m.perform now o) s.owner) ++ (m.issued o).toList := by
  by_cases ho : o.concern = .subscriptions
  · have stays := m.departed_of_concern now ho
    cases o with
    | subscribe r =>
      have hperform : m.perform now (.subscribe r) = (m.subscribe r).2 := rfl
      rw [hperform] at stays ⊢
      have hall : (m.subscriptions.list.filter fun _ => true) = m.subscriptions.list :=
        List.filter_eq_self.mpr fun _ _ => rfl
      simp only [Operation.unsubscribes, stays, Bool.not_false, Bool.and_self, hall, issued]
      rcases m.subscribe_cases r with ⟨e, h⟩ | ⟨s, hs, -, h⟩
      · simp only [h, Except.toOption, Option.bind_none, Option.toList_none, List.append_nil]
      · simp only [h, Except.toOption, Option.bind_some, hs, Option.toList_some]
        rfl
    | unsubscribe id =>
      have hperform : m.perform now (.unsubscribe id) = (m.unsubscribe id).2 := rfl
      rw [hperform] at stays ⊢
      simp only [Operation.unsubscribes, stays, Bool.not_false, Bool.and_true, issued,
        Option.toList_none, List.append_nil]
      rcases m.unsubscribe_cases id with ⟨hnone, h⟩ | ⟨s, -, -, t, ht, -, h⟩
      · rw [h, eq_comm, List.filter_eq_self]
        intro s hs
        simpa using hnone s hs
      · rw [h]
        show t.list = _
        rw [ht, SubscriptionTable.eraseP_eq_filter distinct]
        exact List.filter_congr fun s _ => decide_not
    | _ => cases ho
  · have hissued : m.issued o = none := by
      cases o with
      | subscribe r => exact absurd rfl ho
      | _ => rfl
    have hunsubscribes : ∀ s, o.unsubscribes s = false := by
      intro s
      cases o with
      | unsubscribe id => exact absurd rfl ho
      | _ => rfl
    rw [(m.perform_effect now named o).subscriptions_list named ho, hissued]
    simp [hunsubscribes]

/-- A history leaves the subscriptions that stand through it and those that it issues and
upholds. -/
theorem Subscribed.list_after {m : Mediator J} (h : m.Subscribed) (named : m.directory.Named)
    {history : List (Instant × Operation)} (distinct : (m.after history).given.Nodup) :
    (m.after history).subscriptions.list =
      (m.subscriptions.list.filter fun s => m.stands s history) ++ m.upheld history := by
  induction history generalizing m with
  | nil =>
    have hall : (m.subscriptions.list.filter fun s => m.stands s []) = m.subscriptions.list :=
      List.filter_eq_self.mpr fun _ _ => rfl
    rw [hall]
    exact (List.append_nil _).symm
  | cons o rest ih =>
    have distinctBefore : (m.subscriptions.list.map Subscription.id).Nodup :=
      (h.numbered.trans (given_after named (o :: rest))).nodup distinct
    have hrest := ih (h.perform named o.1 o.2) (named_perform named o.1 o.2) distinct
    show ((m.perform o.1 o.2).after rest).subscriptions.list = _
    rw [hrest, subscriptions_perform named distinctBefore, List.filter_append, List.filter_filter,
      List.append_assoc]
    refine congrArg (· ++ _) (List.filter_congr fun s _ => ?_)
    exact Bool.and_comm ((m.perform o.1 o.2).stands s rest) _

/-- After any history, the subscribers of which the service tells are the owners of its
subscriptions. Where all names that were given are distinct, its subscriptions are those that the
history issued and upheld, in the order in which they were issued. Registering, updating and
renewing touches none. -/
theorem subscriptions_upheld (settings : MediatorSettings) (faults : FaultPlan) (journal : J)
    (cursorNames : Nat → String) (subscriptionNames : Nat → SubscriptionId)
    (history : List (Instant × Operation)) :
    let start := (new settings journal cursorNames subscriptionNames).withFaults faults
    let m := start.after history
    (∀ text, m.self.subscribers.contains text = true ↔
      ∃ s ∈ m.subscriptions.list, s.owner.text = text) ∧
    (m.given.Nodup → m.subscriptions.list = start.upheld history) ∧
    ∀ now, (∀ c lease, (m.register now c lease).2.subscriptions = m.subscriptions) ∧
      (∀ id delta mode lease,
        (m.update now id delta mode lease).2.subscriptions = m.subscriptions) ∧
      ∀ id lease, (m.renew now id lease).2.subscriptions = m.subscriptions := by
  intro start m
  have named : start.directory.Named := Directory.named_empty
  have subscribed : start.Subscribed :=
    (subscribed_new settings journal cursorNames subscriptionNames).frame rfl rfl rfl
  refine ⟨fun text => ?_, fun distinct => ?_, fun now => ⟨?_, ?_, ?_⟩⟩
  · rw [(subscribed.after named history).attended]
    exact SubscriptionTable.contains_owners
  · exact subscribed.list_after named distinct
  · intro c lease
    rcases m.register_cases now c lease with ⟨e, h⟩ | ⟨previous, d, -, h⟩
    · rw [h]
    · rw [h]
      rfl
  · intro id delta mode lease
    rcases m.update_cases now id delta mode lease with ⟨e, h⟩ | ⟨updated, d, -, h⟩
    · rw [h]
    · rw [h]
      rfl
  · intro id lease
    rcases m.renew_cases now id lease with ⟨e, h⟩ | ⟨-, h⟩
    · rw [h]
    · rw [h]

end Journaled

/-- A desk that has a subscription and registers twice, and a guest who is never registered and
has two, of which one is unsubscribed. In the end the desk goes. -/
def deskDay : List (Instant × Operation) :=
  let desk : Component := { id := ⟨"desk"⟩, kind := .widget }
  let wish (owner : String) : SubscribeRequest :=
    ⟨⟨owner⟩, ⟨"localhost", 7000⟩, "newComponent", true, some (.kindIs .widget)⟩
  [(⟨0⟩, .register desk none), (⟨1⟩, .subscribe (wish "desk")), (⟨2⟩, .subscribe (wish "guest")),
    (⟨3⟩, .subscribe (wish "guest")), (⟨4⟩, .register desk none),
    (⟨5⟩, .unsubscribe ⟨.supply 0 1⟩), (⟨6⟩, .unregister desk.id)]

/-- The later subscription of the guest is what is left. -/
theorem subscriptions_upheld_deskDay :
    let start : Mediator NoJournal :=
      (new {} ⟨⟩ (fun _ => "") fun n => ⟨.supply 0 n⟩).withFaults fun _ _ => none
    (start.after deskDay).given.Nodup ∧
      (start.after deskDay).subscriptions.list = start.upheld deskDay ∧
      (start.upheld deskDay).map (fun s => (s.owner, s.id)) = [(⟨"guest"⟩, ⟨.supply 0 2⟩)] := by
  intro start
  have distinct : (start.after deskDay).given.Nodup := by decide +kernel
  have hlist := (subscriptions_upheld {} (fun _ _ => none) (⟨⟩ : NoJournal) (fun _ => "")
    (fun n => ⟨.supply 0 n⟩) deskDay).2.1 distinct
  exact ⟨distinct, hlist, by decide +kernel⟩

end Mediator

end Rendezvous
