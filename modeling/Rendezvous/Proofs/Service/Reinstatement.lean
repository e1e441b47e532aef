import Rendezvous.Proofs.Service.Restart
/-!
# A journal that is not trusted

What is in the file of a journal need not have been written by the service. Whatever it is, if it can
be opened, the components in it that answer are registered again and the others are struck out
(`Mediator.Reinstated`), with two exceptions (`Mediator.reinstated_iff`). A component whose name is
blank is refused, and all that come after it are left where they are. And attributes that stand under
other names than their own are indexed by the latter and judged by the former, so that a search may
find what does not match.
-/

namespace Rendezvous

namespace RegistrationLog

theorem Filed.mem_components {l : RegistrationLog} (filed : l.Filed) {c : Component} :
    c ∈ l.components ↔ (l.entries.get? c.id).map LogEntry.component = some c := by
  rw [components, List.mem_map, Option.map_eq_some_iff]
  constructor
  · rintro ⟨e, he, rfl⟩
    obtain ⟨id, hid⟩ := SortedMap.mem_values.mp he
    rw [filed.keyed id e hid]
    exact ⟨e, hid, rfl⟩
  · rintro ⟨e, he, hc⟩
    exact ⟨e, SortedMap.mem_values.mpr ⟨c.id, he⟩, hc⟩

theorem Filed.components_ascending {l : RegistrationLog} (filed : l.Filed) :
    l.components.Pairwise fun a b => compare a.id b.id = .lt := by
  rw [components, SortedMap.values, List.map_map, List.pairwise_map]
  refine l.entries.ascending.imp_of_mem fun {x y} hx hy hlt => ?_
  rw [← filed.keyed x.1 x.2 (SortedMap.mem_toList.mp hx),
    ← filed.keyed y.1 y.2 (SortedMap.mem_toList.mp hy)] at hlt
  exact hlt

theorem Filed.strike {l : RegistrationLog} (filed : l.Filed) (ids : List ComponentId) :
    (Mediator.strike l ids).Filed := by
  induction ids generalizing l with
  | nil => exact filed
  | cons id ids ih => exact ih (filed.forget id)

theorem strike_entries (l : RegistrationLog) (ids : List ComponentId) (id : ComponentId) :
    (Mediator.strike l ids).entries.get? id = if id ∈ ids then none else l.entries.get? id := by
  induction ids generalizing l with
  | nil => rfl
  | cons id' ids ih =>
    have hforget : (Mediator.strike l (id' :: ids)).entries.get? id =
        if id ∈ ids then none else if id = id' then none else l.entries.get? id := by
      rw [← forget_entries]
      exact ih (l.forget id').2
    rw [hforget]
    by_cases hid : id = id'
    · simp [hid]
    · simp [hid]

/-- What is left of a log after components are struck out of it. -/
theorem Filed.components_strike {l : RegistrationLog} (filed : l.Filed)
    {answers : Component → Bool} :
    (Mediator.strike l ((l.components.filter fun c => !answers c).map Component.id)).components =
      l.components.filter answers := by
  have struck := filed.strike ((l.components.filter fun c => !answers c).map Component.id)
  refine Directory.eq_of_ascending struck.components_ascending
    (filed.components_ascending.filter _) fun c => ?_
  rw [struck.mem_components, strike_entries, List.mem_filter, filed.mem_components]
  -- Of one name there is one component in the log, which answers or does not.
  have hsilent : c.id ∈ (l.components.filter fun c => !answers c).map Component.id ↔
      ∃ c', (l.entries.get? c.id).map LogEntry.component = some c' ∧ answers c' = false := by
    rw [List.mem_map]
    constructor
    · rintro ⟨c', hc', hid⟩
      obtain ⟨hmem, hanswer⟩ := List.mem_filter.mp hc'
      rw [filed.mem_components, hid] at hmem
      exact ⟨c', hmem, by simpa using hanswer⟩
    · rintro ⟨c', hc', hanswer⟩
      obtain ⟨e, he, rfl⟩ := Option.map_eq_some_iff.mp hc'
      have hid : e.component.id = c.id := filed.keyed c.id e he
      refine ⟨e.component, List.mem_filter.mpr ⟨filed.mem_components.mpr ?_, ?_⟩, hid⟩
      · rw [hid]
        exact hc'
      · simpa using hanswer
  by_cases h : c.id ∈ (l.components.filter fun c => !answers c).map Component.id
  · obtain ⟨c', hc', hanswer⟩ := hsilent.mp h
    rw [if_pos h, hc']
    constructor
    · intro hnone
      cases hnone
    · rintro ⟨hsame, hcontrary⟩
      cases hsame
      rw [hanswer] at hcontrary
      cases hcontrary
  · rw [if_neg h]
    constructor
    · intro hc
      cases hanswer : answers c with
      | true => exact ⟨hc, rfl⟩
      | false => exact absurd (hsilent.mpr ⟨c, hc, hanswer⟩) h
    · exact fun hc => hc.1

end RegistrationLog

namespace Mediator

/-- Whether a restart has counted and registered exactly the components of a journal that answer,
each with a lease from now on, and has struck the others out. -/
structure Reinstated (now : Instant) (settings : LeaseSettings) (answers : Component → Bool)
    (logged : List Component) (restored : Answer RegistrationLog Nat) : Prop where
  counted : restored.1 = .ok (logged.filter answers).length
  registered : restored.2.directory.list = logged.filter answers
  configured : restored.2.leases.settings = settings
  leased : ∀ c ∈ logged, answers c = true → restored.2.leases.Granted now c.id
  noted : restored.2.journal.components = logged.filter answers
  struck : ∀ c ∈ logged, answers c = false → restored.2.journal.Lacks c.id

/-- Whether a service has no components yet, and a journal that it can write. -/
structure Vacant (m : Mediator RegistrationLog) : Prop where
  faultless : m.registry.Faultless
  empty : m.directory = ∅
  filed : m.journal.Filed

theorem vacant_new (settings : MediatorSettings) (cursorNames : Nat → String)
    (subscriptionNames : Nat → SubscriptionId) {log : RegistrationLog} (filed : log.Filed) :
    (new settings log cursorNames subscriptionNames).Vacant where
  faultless _ _ := rfl
  empty := rfl
  filed := filed

theorem exists_first_blank {answers : Component → Bool} {cs : List Component}
    (h : ¬ ∀ c ∈ cs, answers c = true → c.id.isBlank = false) :
    ∃ before c later, cs = before ++ c :: later ∧
      (∀ b ∈ before, answers b = true → b.id.isBlank = false) ∧
      answers c = true ∧ c.id.isBlank = true := by
  cases hfind : cs.find? fun c => answers c && c.id.isBlank with
  | none =>
    refine absurd (fun c hc hanswer => ?_) h
    have hneither := List.find?_eq_none.mp hfind c hc
    simpa [hanswer] using hneither
  | some c =>
    obtain ⟨hc, before, later, parts, hbefore⟩ := List.find?_eq_some_iff_append.mp hfind
    rw [Bool.and_eq_true] at hc
    refine ⟨before, c, later, parts, fun b hb hanswer => ?_, hc.1, hc.2⟩
    simpa [hanswer] using hbefore b hb

section Restoring

variable {m : Mediator RegistrationLog} (now : Instant) (answers : Component → Bool)

/-- Of components of the journal, settled one after the other, those that answer are registered. -/
theorem Vacant.list_settled (vacant : m.Vacant) {cs : List Component}
    (part : cs.Sublist m.journal.components) :
    (cs.foldl (settle now answers) m).directory.list = cs.filter answers := by
  obtain ⟨hcomponents, -⟩ := settled now answers m cs
  have ascending : (cs.filter answers).Pairwise fun a b => compare a.id b.id = .lt :=
    (vacant.filed.components_ascending.sublist part).filter _
  unfold Directory.list
  rw [hcomponents, vacant.empty]
  exact SortedMap.values_ofList ascending

theorem Vacant.posted_settled (vacant : m.Vacant) (cs : List Component) :
    (cs.foldl (settle now answers) m).directory.Posted := by
  obtain ⟨-, hposted, -⟩ := settled now answers m cs
  refine hposted ?_
  rw [vacant.empty]
  exact Directory.posted_empty

/-- Components with names are registered again if they answer, and else struck out. -/
theorem Vacant.restore_of_filled (vacant : m.Vacant)
    (filled : ∀ c ∈ m.journal.components, answers c = true → c.id.isBlank = false) :
    m.restore now answers = (.ok (m.journal.components.filter answers).length,
        m.journal.components.foldl (settle now answers) m) ∧
      Reinstated now m.leases.settings answers m.journal.components (m.restore now answers) := by
  have hrestored : m.restore now answers = (.ok (m.journal.components.filter answers).length,
      m.journal.components.foldl (settle now answers) m) :=
    reinstate_eq_ok now vacant.faultless filled
  obtain ⟨-, -, hleases, hjournal⟩ := settled now answers m m.journal.components
  have struck := vacant.filed.strike
    ((m.journal.components.filter fun c => !answers c).map Component.id)
  refine ⟨hrestored, ?_⟩
  rw [hrestored]
  refine ⟨rfl, vacant.list_settled now answers (List.Sublist.refl _), ?_, ?_, ?_, ?_⟩
  · rw [hleases]
    exact LeaseTable.settings_armAll now _ _
  · intro c hc hanswer
    rw [hleases]
    exact LeaseTable.granted_armAll now _
      (List.mem_map.mpr ⟨c, List.mem_filter.mpr ⟨hc, hanswer⟩, rfl⟩)
  · rw [hjournal]
    exact vacant.filed.components_strike
  · intro c hc hanswer
    rw [hjournal]
    refine struck.lacks ?_
    have hsilent : c.id ∈ (m.journal.components.filter fun c => !answers c).map Component.id :=
      List.mem_map.mpr ⟨c, List.mem_filter.mpr ⟨hc, by simp [hanswer]⟩, rfl⟩
    rw [RegistrationLog.strike_entries, if_pos hsilent]

/-- Where a component answers whose name is blank, everything stops. -/
theorem Vacant.restore_of_blank (vacant : m.Vacant) {before later : List Component} {c : Component}
    (parts : m.journal.components = before ++ c :: later)
    (filled : ∀ b ∈ before, answers b = true → b.id.isBlank = false)
    (answer : answers c = true) (blank : c.id.isBlank = true) :
    (m.restore now answers).1 =
        .error (.ofDirectory (.invalidDescription "component id must not be empty")) ∧
      (m.restore now answers).2.directory = (before.foldl (settle now answers) m).directory := by
  let reached := before.foldl (settle now answers) m
  have hrestored : m.restore now answers = m.reinstate now
      ((before.map fun c => (c, answers c)) ++ (c, true) :: later.map fun c => (c, answers c)) := by
    show m.reinstate now (m.journal.components.map fun c => (c, answers c)) = _
    rw [parts, List.map_append, List.map_cons, answer]
  have hrefused := Registry.add_of_blank (faultless_settled now answers vacant.faultless before)
    blank
  rw [hrestored, reinstate_append now vacant.faultless filled]
  show Except.map _ (reached.reinstate now _).1 = _ ∧ (reached.reinstate now _).2.directory = _
  unfold reinstate
  rw [hrefused]
  exact ⟨rfl, rfl⟩

theorem Vacant.posted_restore (vacant : m.Vacant) :
    (m.restore now answers).2.directory.Posted := by
  by_cases filled : ∀ c ∈ m.journal.components, answers c = true → c.id.isBlank = false
  · rw [(vacant.restore_of_filled now answers filled).1]
    exact vacant.posted_settled now answers _
  · obtain ⟨before, c, later, parts, filled, answer, blank⟩ := exists_first_blank filled
    rw [(vacant.restore_of_blank now answers parts filled answer blank).2]
    exact vacant.posted_settled now answers before

end Restoring

/-- A service without components is started from a file that can be opened and written, whatever is
in it. Of those that answer, everybody is registered again and found by exactly what matches if and
only if nobody has a blank name or attributes that a comparison can tell from what stands under their
names. The first one with a blank name makes the start fail with only those registered that come
before; attributes have no effect but on searches. -/
theorem reinstated_iff (settings : MediatorSettings) (cursorNames : Nat → String)
    (subscriptionNames : Nat → SubscriptionId) {clock : Timestamp} {disk : Disk}
    {log : RegistrationLog} (opened : RegistrationLog.openOn clock disk = .ok log)
    (intact : ∀ n, disk.fails n = false) (answers : Component → Bool) (now : Instant) :
    let restored := (new settings log cursorNames subscriptionNames).restore now answers
    (Reinstated now settings.lease answers log.components restored ∧ restored.2.directory.Exact ↔
      ∀ c ∈ log.components, answers c = true → c.id.isBlank = false ∧ c.Faithful) ∧
    (Reinstated now settings.lease answers log.components restored ↔
      ∀ c ∈ log.components, answers c = true → c.id.isBlank = false) ∧
    (∀ before c later, log.components = before ++ c :: later →
      (∀ b ∈ before, answers b = true → b.id.isBlank = false) →
      answers c = true → c.id.isBlank = true →
        restored.1 =
            .error (.ofDirectory (.invalidDescription "component id must not be empty")) ∧
          restored.2.directory.list = before.filter answers) ∧
    (restored.2.directory.Exact ↔ ∀ c ∈ restored.2.directory.list, c.Faithful) := by
  intro restored
  have vacant : (new settings log cursorNames subscriptionNames).Vacant :=
    vacant_new settings cursorNames subscriptionNames (RegistrationLog.filed_openOn opened intact)
  have stopped : ∀ before c later, log.components = before ++ c :: later →
      (∀ b ∈ before, answers b = true → b.id.isBlank = false) →
      answers c = true → c.id.isBlank = true →
        restored.1 =
            .error (.ofDirectory (.invalidDescription "component id must not be empty")) ∧
          restored.2.directory.list = before.filter answers := by
    intro before c later parts filled answer blank
    obtain ⟨herror, hdirectory⟩ :=
      vacant.restore_of_blank now answers parts filled answer blank
    refine ⟨herror, ?_⟩
    rw [hdirectory]
    refine vacant.list_settled now answers ?_
    show before.Sublist log.components
    rw [parts]
    exact List.sublist_append_left before (c :: later)
  have reinstates : Reinstated now settings.lease answers log.components restored ↔
      ∀ c ∈ log.components, answers c = true → c.id.isBlank = false := by
    constructor
    · intro reinstated
      by_contra unfilled
      obtain ⟨before, c, later, parts, filled, answer, blank⟩ := exists_first_blank unfilled
      have hcounted := reinstated.counted
      rw [(stopped before c later parts filled answer blank).1] at hcounted
      cases hcounted
    · intro filled
      exact (vacant.restore_of_filled now answers filled).2
  have posted : restored.2.directory.Posted := vacant.posted_restore now answers
  refine ⟨?_, reinstates, stopped, posted.exact_iff⟩
  rw [posted.exact_iff]
  constructor
  · rintro ⟨reinstated, faithful⟩ c hc hanswer
    refine ⟨reinstates.mp reinstated c hc hanswer, faithful c ?_⟩
    rw [reinstated.registered]
    exact List.mem_filter.mpr ⟨hc, hanswer⟩
  · intro sound
    have reinstated := reinstates.mpr fun c hc hanswer => (sound c hc hanswer).1
    refine ⟨reinstated, fun c hc => ?_⟩
    rw [reinstated.registered] at hc
    obtain ⟨hmem, hanswer⟩ := List.mem_filter.mp hc
    exact (sound c hmem hanswer).2

/-- A lamp with an attribute that says it is its place and stands as its room. -/
def misplacedLamp : Component :=
  { id := ⟨"lamp"⟩, kind := .widget
    nonConstant := SortedMap.ofList [("room", .valued "place" (.string "hall"))] }

/-- A log with the lamp. -/
def misplacedLog : RegistrationLog := ((RegistrationLog.fresh noon).record misplacedLamp).2

theorem not_faithful_misplacedLamp : ¬ misplacedLamp.Faithful := by
  intro faithful
  have hresolved : .valued "place" (.string "hall") ∈ misplacedLamp.resolved := by decide
  obtain ⟨a, ha, -⟩ := (faithful "place" .equal (.string "hall")).mp
    ⟨.valued "place" (.string "hall"), hresolved, rfl, .string "hall", rfl, by decide⟩
  have hnone : misplacedLamp.attribute? "place" = none := by decide
  rw [hnone] at ha
  cases ha

/-- The lamp is registered again from its file, and then its place is found under a name under which
it has nothing. -/
theorem reinstated_iff_misplaced :
    RegistrationLog.openOn noon misplacedLog.disk = .ok misplacedLog ∧
    (∀ n, misplacedLog.disk.fails n = false) ∧
    let restored := (new {} misplacedLog (fun _ => "") fun _ => default).restore ⟨0⟩ fun _ => true
    Reinstated ⟨0⟩ {} (fun _ => true) [misplacedLamp] restored ∧ ¬ restored.2.directory.Exact := by
  have saved : misplacedLog.Saved :=
    (RegistrationLog.saved_fresh noon).record isMoment_noon misplacedLamp
  have opened : RegistrationLog.openOn noon misplacedLog.disk = .ok misplacedLog := by
    have hdoubles : misplacedLog.doubles = [] := by decide
    have durable : DurableWhereFinite misplacedLog.doubles := by
      rw [hdoubles]
      intro x hx
      cases hx
    refine (saved.openOn_eq_ok durable).mpr ⟨?_, rfl⟩
    rw [hdoubles]
    intro x hx
    cases hx
  have intact : ∀ n, misplacedLog.disk.fails n = false := fun _ => rfl
  have hcomponents : misplacedLog.components = [misplacedLamp] := by decide
  obtain ⟨-, reinstates, -, exact_iff⟩ :=
    reinstated_iff {} (fun _ => "") (fun _ => default) opened intact (fun _ => true) ⟨0⟩
  have reinstated := reinstates.mpr fun c hc _ => by
    rw [hcomponents] at hc
    rw [List.mem_singleton.mp hc]
    decide
  rw [hcomponents] at reinstated
  refine ⟨opened, intact, reinstated, fun exact => ?_⟩
  refine not_faithful_misplacedLamp (exact_iff.mp exact misplacedLamp ?_)
  rw [reinstated.registered]
  exact List.mem_singleton.mpr rfl

end Mediator

end Rendezvous
