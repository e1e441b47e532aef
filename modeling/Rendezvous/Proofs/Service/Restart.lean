import Rendezvous.Proofs.Service.Effect
import Rendezvous.Proofs.Service.Journal
/-!
# Restarts

A service whose journal is a file that can be written has in the journal what is registered
(`Mediator.Mirrored.after`). What a restart makes of it hangs on the doubles among the attributes:
messages may carry some that are not finite, a snapshot cannot. Only without these the file can be
opened again, and then a restart in which everybody answers registers the same components again
(`Mediator.reopened_iff_finite`).
-/

namespace Rendezvous

namespace Mediator

/-- Something that happens to the service, when it happens, and what the calendar shows then. -/
structure Event where
  clock : Timestamp
  now : Instant
  operation : Operation

/-- Whether an operation registers components again, as a service does only when it starts. -/
def Operation.isRestart : Operation → Bool
  | .restore _ | .reinstate _ => true
  | _ => false

/-- The service after an event. -/
def experience (m : Mediator RegistrationLog) (e : Event) : Mediator RegistrationLog :=
  { m with journal := m.journal.atClock e.clock }.perform e.now e.operation

/-- Whether the registered components are those in the journal, and the journal is in its file. -/
structure Mirrored (m : Mediator RegistrationLog) : Prop where
  named : m.directory.Named
  filled : ∀ id c, m.directory.get? id = some c → c.id.isBlank = false
  moment : m.journal.clock.IsMoment
  saved : m.journal.Saved
  noted : ∀ id, m.directory.get? id = (m.journal.entries.get? id).map LogEntry.component

theorem mirrored_fresh (settings : MediatorSettings) (cursorNames : Nat → String)
    (subscriptionNames : Nat → SubscriptionId) {clock : Timestamp} (h : clock.IsMoment) :
    (new settings (RegistrationLog.fresh clock) cursorNames subscriptionNames).Mirrored where
  named := Directory.named_empty
  filled _ _ h := by cases h
  moment := h
  saved := RegistrationLog.saved_fresh clock
  noted _ := rfl

/-- Only the directory and the journal matter. -/
theorem Mirrored.frame {m m' : Mediator RegistrationLog} (mirrored : m.Mirrored)
    (hdirectory : m'.directory = m.directory) (hjournal : m'.journal = m.journal) :
    m'.Mirrored where
  named := by
    rw [hdirectory]
    exact mirrored.named
  filled := by
    rw [hdirectory]
    exact mirrored.filled
  moment := by
    rw [hjournal]
    exact mirrored.moment
  saved := by
    rw [hjournal]
    exact mirrored.saved
  noted := by
    rw [hdirectory, hjournal]
    exact mirrored.noted

theorem Mirrored.atClock {m : Mediator RegistrationLog} (mirrored : m.Mirrored)
    {clock : Timestamp} (h : clock.IsMoment) :
    Mirrored { m with journal := m.journal.atClock clock } where
  named := mirrored.named
  filled := mirrored.filled
  moment := h
  saved := mirrored.saved.atClock clock
  noted := mirrored.noted

/-- A component that comes or changes is noted. -/
theorem Mirrored.note {m m' : Mediator RegistrationLog} (mirrored : m.Mirrored) {c : Component}
    (named : m'.directory.Named) (filled : c.id.isBlank = false)
    (hdirectory : ∀ id, m'.directory.get? id = if id = c.id then some c else m.directory.get? id)
    (hjournal : m'.journal = (m.journal.record c).2) : m'.Mirrored where
  named := named
  filled id c' h := by
    rw [hdirectory] at h
    split at h
    · cases h
      exact filled
    · exact mirrored.filled id c' h
  moment := by
    rw [hjournal]
    exact mirrored.moment
  saved := by
    rw [hjournal]
    exact mirrored.saved.record mirrored.moment c
  noted id := by
    rw [hdirectory, hjournal, RegistrationLog.record_entries, SortedMap.get?_insert]
    split
    · rfl
    · exact mirrored.noted id

/-- A component that goes is struck out. -/
theorem Mirrored.strike {m m' : Mediator RegistrationLog} (mirrored : m.Mirrored)
    (id : ComponentId) (hdirectory : m'.directory = (m.directory.remove id).2)
    (hjournal : m'.journal = (m.journal.forget id).2) : m'.Mirrored where
  named := by
    rw [hdirectory]
    exact mirrored.named.remove id
  filled id' c h := by
    rw [hdirectory, Directory.get?_remove] at h
    split at h
    · cases h
    · exact mirrored.filled id' c h
  moment := by
    have hclock : (m.journal.forget id).2.clock = m.journal.clock := by
      unfold RegistrationLog.forget
      split <;> rfl
    rw [hjournal, hclock]
    exact mirrored.moment
  saved := by
    rw [hjournal]
    exact mirrored.saved.forget mirrored.moment id
  noted id' := by
    rw [hdirectory, hjournal, Directory.get?_remove, RegistrationLog.forget_entries]
    split
    · rfl
    · exact mirrored.noted id'

theorem Mirrored.depart {m m' : Mediator RegistrationLog} (mirrored : m.Mirrored)
    {id : ComponentId} {c : Component} (hget : m.directory.get? id = some c)
    (hdirectory : m'.directory = (m.directory.remove id).2) (hjournal : m'.journal = m.journal) :
    (m'.depart c).Mirrored := by
  have hid : c.id = id := mirrored.named id c hget
  refine mirrored.strike id ?_ ?_
  · show (m'.depart c).registry.directory = _
    rw [depart_registry]
    exact hdirectory
  · rw [depart_journal, hid, hjournal]
    rfl

theorem Mirrored.register {m : Mediator RegistrationLog} (mirrored : m.Mirrored) (now : Instant)
    (c : Component) (lease : Option Lease) : (m.register now c lease).2.Mirrored := by
  rcases m.register_cases now c lease with ⟨e, h⟩ | ⟨previous, d, hop, h⟩
  · rw [h]
    exact mirrored.frame rfl rfl
  · obtain ⟨filled, -, -⟩ := Directory.insert_eq_ok.mp hop
    rw [h]
    exact mirrored.note (mirrored.named.insert hop) filled (Directory.get?_insert hop) rfl

theorem Mirrored.update {m : Mediator RegistrationLog} (mirrored : m.Mirrored) (now : Instant)
    (id : ComponentId) (delta : Attributes) (mode : UpdateMode) (lease : Option Lease) :
    (m.update now id delta mode lease).2.Mirrored := by
  rcases m.update_cases now id delta mode lease with ⟨e, h⟩ | ⟨updated, d, hop, h⟩
  · rw [h]
    exact mirrored.frame rfl rfl
  · obtain ⟨c, hget, -, hupdated, -⟩ := Directory.update_eq_ok.mp hop
    have hid : updated.id = id := by
      rw [hupdated]
      exact mirrored.named id c hget
    have filled : updated.id.isBlank = false := by
      rw [hid, ← mirrored.named id c hget]
      exact mirrored.filled id c hget
    have hdirectory : ∀ id', d.get? id' =
        if id' = updated.id then some updated else m.directory.get? id' := by
      intro id'
      rw [hid]
      exact Directory.get?_update mirrored.named hop id'
    rw [h]
    exact mirrored.note (mirrored.named.update hop) filled hdirectory rfl

theorem Mirrored.unregister {m : Mediator RegistrationLog} (mirrored : m.Mirrored)
    (id : ComponentId) : (m.unregister id).2.Mirrored := by
  rcases m.unregister_cases id with ⟨e, h⟩ | ⟨c, hget, h⟩
  · rw [h]
    exact mirrored.frame rfl rfl
  · rw [h]
    exact mirrored.depart hget rfl rfl

theorem Mirrored.evict {m : Mediator RegistrationLog} (mirrored : m.Mirrored)
    (id : ComponentId) : (m.evict id).2.Mirrored := by
  cases hlease : (m.leases.get? id).isSome with
  | true =>
    rw [evict_of_leased hlease]
    exact mirrored
  | false =>
    have unleased : m.leases.get? id = none := by simpa using hlease
    rcases evict_cases unleased with ⟨e, -, h⟩ | ⟨-, h⟩ | ⟨c, hget, h⟩
    · rw [h]
      exact mirrored.frame rfl rfl
    · rw [h]
      exact mirrored.frame rfl rfl
    · rw [h]
      exact mirrored.depart hget rfl rfl

theorem Mirrored.conclude {m : Mediator RegistrationLog} (mirrored : m.Mirrored) (now : Instant)
    (x : Expiry) (outcome : HandshakeOutcome) : (m.conclude now x outcome).Mirrored := by
  have resolved : Mirrored { m with leases := (m.leases.resolve now x outcome).2 } :=
    mirrored.frame rfl rfl
  unfold Mediator.conclude
  simp only
  split
  · exact resolved
  · exact resolved
  · exact resolved.evict x.component

theorem Mirrored.handleExpiry {m : Mediator RegistrationLog} (mirrored : m.Mirrored)
    (now : Instant) (x : Expiry) : (m.handleExpiry now x).Mirrored := by
  unfold Mediator.handleExpiry
  rcases m.leases.beginHandshake x with ⟨begun, leases⟩
  cases begun with
  | false => exact mirrored
  | true =>
    rcases m.registry.get_cases x.component with ⟨e, -, hget⟩ | hget
    · rw [hget]
      have asked : Mirrored { m with registry := m.registry.after m.directory, leases } :=
        mirrored.frame rfl rfl
      exact asked.conclude now x _
    · rw [hget]
      cases m.registry.directory.get? x.component with
      | none => exact mirrored.frame rfl rfl
      | some c => exact mirrored.frame rfl rfl

theorem Mirrored.handleCompletion {m : Mediator RegistrationLog} (mirrored : m.Mirrored)
    (now : Instant) (c : Completion) : (m.handleCompletion now c).Mirrored := by
  unfold Mediator.handleCompletion
  split
  · exact mirrored.conclude now _ _
  · exact mirrored

theorem Mirrored.query {m : Mediator RegistrationLog} (mirrored : m.Mirrored)
    (q : Option Query) : (m.query q).2.Mirrored := by
  rcases m.query_cases q with h | h
  · rw [h]
    exact mirrored
  · rw [h]
    exact mirrored.frame rfl rfl

/-- Every operation of a running service keeps the journal true. -/
theorem Mirrored.perform {m : Mediator RegistrationLog} (mirrored : m.Mirrored) (now : Instant)
    {o : Operation} (running : o.isRestart = false) : (m.perform now o).Mirrored := by
  cases o with
  | register c lease => exact mirrored.register now c lease
  | update id delta mode lease => exact mirrored.update now id delta mode lease
  | renew id lease =>
    change (m.renew now id lease).2.Mirrored
    rcases m.renew_cases now id lease with ⟨e, h⟩ | ⟨-, h⟩
    · rw [h]
      exact mirrored.frame rfl rfl
    · rw [h]
      exact mirrored.frame rfl rfl
  | unregister id => exact mirrored.unregister id
  | evict id => exact mirrored.evict id
  | handleExpiry x => exact mirrored.handleExpiry now x
  | handleCompletion c => exact mirrored.handleCompletion now c
  | reinstate answers => cases running
  | restore answers => cases running
  | subscribe r =>
    rw [perform_subscribe]
    obtain ⟨hregistry, -, hjournal⟩ := m.subscribe_frame r
    exact mirrored.frame (congrArg Registry.directory hregistry) hjournal
  | unsubscribe id =>
    rw [perform_unsubscribe]
    obtain ⟨hregistry, -, hjournal⟩ := m.unsubscribe_frame id
    exact mirrored.frame (congrArg Registry.directory hregistry) hjournal
  | query q => exact mirrored.query q
  | queryPage q pageSize =>
    change (m.queryPage q pageSize).2.Mirrored
    rcases m.queryPage_cases q pageSize with h | ⟨cursors, h⟩
    · rw [h]
      exact mirrored.query q
    · rw [h]
      exact (mirrored.query q).frame rfl rfl
  | queryNext cursor =>
    change (m.queryNext cursor).2.Mirrored
    obtain ⟨cursors, h⟩ := m.queryNext_cases cursor
    rw [h]
    exact mirrored.frame rfl rfl
  | fire => exact mirrored.frame rfl rfl
  | launch network => exact mirrored.frame rfl rfl
  | land => exact mirrored.frame rfl rfl
  | receive =>
    unfold Mediator.perform
    cases m.dispatcher.receive with
    | none => exact mirrored
    | some taken => exact mirrored.frame rfl rfl

/-- After any events of a running service the journal has what is registered. -/
theorem Mirrored.after {m : Mediator RegistrationLog} (mirrored : m.Mirrored)
    {history : List Event} (moments : ∀ e ∈ history, e.clock.IsMoment)
    (running : ∀ e ∈ history, e.operation.isRestart = false) :
    (history.foldl experience m).Mirrored := by
  induction history generalizing m with
  | nil => exact mirrored
  | cons e rest ih =>
    have hstep : (m.experience e).Mirrored :=
      (mirrored.atClock (moments e (List.mem_cons_self ..))).perform e.now
        (running e (List.mem_cons_self ..))
    exact ih hstep (fun e he => moments e (List.mem_cons_of_mem _ he))
      fun e he => running e (List.mem_cons_of_mem _ he)

/-- The journal lists the registered components. -/
theorem Mirrored.components {m : Mediator RegistrationLog} (mirrored : m.Mirrored) :
    m.journal.components = m.directory.list :=
  (SortedMap.values_of_get? mirrored.noted).symm

theorem Mirrored.mem_doubles {m : Mediator RegistrationLog} (mirrored : m.Mirrored)
    {x : Binary64} : x ∈ m.journal.doubles ↔ ∃ c ∈ m.directory.list, x ∈ c.doubles := by
  unfold RegistrationLog.doubles
  rw [mirrored.components, List.mem_flatMap]

/-! ## Starting again -/

section Reinstating

variable {J : Type} [Journal J]

/-- The service after a component has been registered again. -/
def welcome (now : Instant) (m : Mediator J) (c : Component) : Mediator J :=
  { m with registry := m.registry.after ((m.directory.remove c.id).2.place c)
           leases := (m.leases.arm now c.id none).2 }

/-- The service once it is known whether a component in the journal answers. -/
def settle (now : Instant) (answers : Component → Bool) (m : Mediator J) (c : Component) :
    Mediator J :=
  if answers c then m.welcome now c else m.forget c.id

theorem settle_of_answer {answers : Component → Bool} {c : Component} (h : answers c = true)
    (now : Instant) (m : Mediator J) : m.settle now answers c = m.welcome now c :=
  if_pos h

theorem settle_of_silence {answers : Component → Bool} {c : Component} (h : answers c = false)
    (now : Instant) (m : Mediator J) : m.settle now answers c = m.forget c.id :=
  if_neg (by simp [h])

theorem faultless_settle (now : Instant) (answers : Component → Bool) {m : Mediator J}
    (faultless : m.registry.Faultless) (c : Component) :
    (m.settle now answers c).registry.Faultless := by
  unfold settle
  split
  · exact faultless.after _
  · exact faultless

theorem faultless_settled (now : Instant) (answers : Component → Bool) {m : Mediator J}
    (faultless : m.registry.Faultless) (cs : List Component) :
    (cs.foldl (settle now answers) m).registry.Faultless := by
  induction cs generalizing m with
  | nil => exact faultless
  | cons c cs ih => exact ih (faultless_settle now answers faultless c)

theorem reinstate_answering (now : Instant) {m : Mediator J} (faultless : m.registry.Faultless)
    {c : Component} (filled : c.id.isBlank = false) (rest : List (Component × Bool)) :
    m.reinstate now ((c, true) :: rest) =
      (((m.welcome now c).reinstate now rest).1.map (· + 1),
        ((m.welcome now c).reinstate now rest).2) := by
  obtain ⟨d, hinsert, hadd⟩ := Registry.add_of_faultless faultless filled
  obtain ⟨-, -, rfl⟩ := Directory.insert_eq_ok.mp hinsert
  conv_lhs => unfold reinstate
  rw [hadd]
  rfl

/-- Components with names are settled one after the other, and those that answer are counted. -/
theorem reinstate_append (now : Instant) {answers : Component → Bool} {m : Mediator J}
    (faultless : m.registry.Faultless) {cs : List Component}
    (filled : ∀ c ∈ cs, answers c = true → c.id.isBlank = false)
    (rest : List (Component × Bool)) :
    m.reinstate now ((cs.map fun c => (c, answers c)) ++ rest) =
      (((cs.foldl (settle now answers) m).reinstate now rest).1.map
          (· + (cs.filter answers).length),
        ((cs.foldl (settle now answers) m).reinstate now rest).2) := by
  induction cs generalizing m with
  | nil =>
    have hcount : ∀ n : Except ServiceError Nat, n = n.map (· + 0) := by
      intro n
      cases n <;> rfl
    exact Prod.ext (hcount _) rfl
  | cons c cs ih =>
    have settled := ih (faultless_settle now answers faultless c)
      fun c' hc' => filled c' (List.mem_cons_of_mem _ hc')
    rw [List.map_cons, List.cons_append, List.foldl_cons]
    cases hanswer : answers c with
    | false =>
      rw [settle_of_silence hanswer] at settled ⊢
      rw [List.filter_cons_of_neg (by simp [hanswer]), ← settled]
      rfl
    | true =>
      have hcount : ∀ n : Except ServiceError Nat,
          (n.map (· + (cs.filter answers).length)).map (· + 1) =
            n.map (· + ((c :: cs).filter answers).length) := by
        intro n
        rw [List.filter_cons_of_pos hanswer, List.length_cons]
        cases n <;> rfl
      rw [settle_of_answer hanswer] at settled ⊢
      rw [reinstate_answering now faultless (filled c (List.mem_cons_self ..) hanswer), settled,
        hcount]

/-- All components of which it is known whether they answer are settled. -/
theorem reinstate_eq_ok (now : Instant) {answers : Component → Bool} {m : Mediator J}
    (faultless : m.registry.Faultless) {cs : List Component}
    (filled : ∀ c ∈ cs, answers c = true → c.id.isBlank = false) :
    m.reinstate now (cs.map fun c => (c, answers c)) =
      (.ok (cs.filter answers).length, cs.foldl (settle now answers) m) := by
  rw [← List.append_nil (cs.map _), reinstate_append now faultless filled]
  simp [reinstate, Except.map]

theorem components_supplant (d : Directory) (c : Component) :
    ((d.remove c.id).2.place c).components = d.components.insert c.id c := by
  refine SortedMap.ext_get? fun id => ?_
  have hget := Directory.get?_place (d.remove c.id).2 c id
  rw [Directory.get?_remove] at hget
  rw [SortedMap.get?_insert]
  refine hget.trans ?_
  split <;> rfl

/-- Those that answer are registered and get leases, the others are struck out of the journal. -/
theorem settled (now : Instant) (answers : Component → Bool) (m : Mediator J)
    (cs : List Component) :
    let s := cs.foldl (settle now answers) m
    s.directory.components =
        m.directory.components.insertAll ((cs.filter answers).map fun c => (c.id, c)) ∧
      (m.directory.Posted → s.directory.Posted) ∧
      s.leases = m.leases.armAll now ((cs.filter answers).map Component.id) ∧
      s.journal = strike m.journal ((cs.filter fun c => !answers c).map Component.id) := by
  induction cs generalizing m with
  | nil => exact ⟨rfl, fun posted => posted, rfl, rfl⟩
  | cons c cs ih =>
    obtain ⟨hcomponents, hposted, hleases, hjournal⟩ := ih (m.settle now answers c)
    cases hanswer : answers c with
    | false =>
      rw [settle_of_silence hanswer] at hcomponents hposted hleases hjournal
      simp only [List.foldl_cons, settle_of_silence hanswer, List.filter_cons, hanswer]
      exact ⟨hcomponents, hposted, hleases, hjournal⟩
    | true =>
      rw [settle_of_answer hanswer] at hcomponents hposted hleases hjournal
      simp only [List.foldl_cons, settle_of_answer hanswer, List.filter_cons, hanswer]
      refine ⟨?_, fun posted => hposted (posted.supplant c), hleases, hjournal⟩
      have hwelcome : (m.welcome now c).directory = (m.directory.remove c.id).2.place c := rfl
      rw [hcomponents, hwelcome, components_supplant]
      rfl

end Reinstating

theorem Mirrored.restore_answering {m : Mediator RegistrationLog} (mirrored : m.Mirrored)
    {l : RegistrationLog} (hcomponents : l.components = m.directory.list)
    (settings : MediatorSettings) (cursorNames : Nat → String)
    (subscriptionNames : Nat → SubscriptionId) (now : Instant) :
    let restarted := (new settings l cursorNames subscriptionNames).restore now fun _ => true
    restarted.1 = .ok m.directory.size ∧
      restarted.2.directory.components = m.directory.components := by
  intro restarted
  have hrestarted : restarted = (new settings l cursorNames subscriptionNames).reinstate now
      (m.directory.list.map fun c => (c, true)) := by
    rw [← hcomponents]
    rfl
  have filled : ∀ c ∈ m.directory.list, true = true → c.id.isBlank = false := by
    intro c hc _
    obtain ⟨id, hid⟩ := SortedMap.mem_values.mp hc
    exact mirrored.filled id c hid
  have faultless : (new settings l cursorNames subscriptionNames).registry.Faultless :=
    fun _ _ => rfl
  have hall : m.directory.list.filter (fun _ => true) = m.directory.list := List.filter_true _
  have hentries : m.directory.list.map (fun c => (c.id, c)) = m.directory.components.toList :=
    SortedMap.map_values_eq_toList mirrored.named
  rw [hrestarted, reinstate_eq_ok now faultless filled]
  constructor
  · rw [hall]
    unfold Directory.list Directory.size SortedMap.values SortedMap.size
    rw [List.length_map]
  · rw [(settled now _ _ _).1, hall, hentries]
    exact SortedMap.ofList_toList m.directory.components

/-- A service with a file for a journal, which is not there at first, is restarted from this file.
Let each finite double that is registered be read as it is written. The file then gives exactly what
is registered if all doubles there are finite, and cannot be opened at all if one is not. Where it
can be opened, a restart in which everybody answers registers the same components again. -/
theorem reopened_iff_finite (settings : MediatorSettings) (cursorNames : Nat → String)
    (subscriptionNames : Nat → SubscriptionId) {first : Timestamp} (hfirst : first.IsMoment)
    {history : List Event} (moments : ∀ e ∈ history, e.clock.IsMoment)
    (running : ∀ e ∈ history, e.operation.isRestart = false) (later : Timestamp) :
    let m := history.foldl experience
      (new settings (RegistrationLog.fresh first) cursorNames subscriptionNames)
    (∀ c ∈ m.directory.list, DurableWhereFinite c.doubles) →
      ((∃ l, RegistrationLog.openOn later m.journal.disk = .ok l ∧
          Journal.load l = .ok m.directory.list) ↔
        ∀ c ∈ m.directory.list, ∀ x ∈ c.doubles, x.isFinite = true) ∧
      ((∃ c ∈ m.directory.list, ∃ x ∈ c.doubles, x.isFinite = false) →
        RegistrationLog.openOn later m.journal.disk = .error .serialization) ∧
      ∀ l, RegistrationLog.openOn later m.journal.disk = .ok l → ∀ now,
        let restarted := (new settings l cursorNames subscriptionNames).restore now fun _ => true
        restarted.1 = .ok m.directory.size ∧
          restarted.2.directory.components = m.directory.components := by
  intro m durable
  have mirrored : m.Mirrored :=
    (mirrored_fresh settings cursorNames subscriptionNames hfirst).after moments running
  have hdurable : DurableWhereFinite m.journal.doubles := by
    intro x hx
    obtain ⟨c, hc, hxc⟩ := mirrored.mem_doubles.mp hx
    exact durable c hc x hxc
  have hopen : ∀ {l}, RegistrationLog.openOn later m.journal.disk = .ok l ↔
      (∀ x ∈ m.journal.doubles, x.isFinite = true) ∧ l = m.journal.atClock later :=
    mirrored.saved.openOn_eq_ok hdurable
  refine ⟨⟨?_, ?_⟩, ?_, ?_⟩
  · rintro ⟨l, hl, -⟩ c hc x hx
    exact (hopen.mp hl).1 x (mirrored.mem_doubles.mpr ⟨c, hc, hx⟩)
  · intro hfinite
    have hall : ∀ x ∈ m.journal.doubles, x.isFinite = true := by
      intro x hx
      obtain ⟨c, hc, hxc⟩ := mirrored.mem_doubles.mp hx
      exact hfinite c hc x hxc
    exact ⟨m.journal.atClock later, hopen.mpr ⟨hall, rfl⟩, congrArg Except.ok mirrored.components⟩
  · rintro ⟨c, hc, x, hx, hunfinite⟩
    exact mirrored.saved.openOn_of_unfinite hdurable later
      (mirrored.mem_doubles.mpr ⟨c, hc, hx⟩) hunfinite
  · intro l hl now
    obtain ⟨-, hsame⟩ := hopen.mp hl
    have hcomponents : l.components = m.directory.list := by
      rw [hsame]
      exact mirrored.components
    exact mirrored.restore_answering hcomponents settings cursorNames subscriptionNames now

/-- A lamp that tells how bright it is, in a message. -/
def lampNode (brightness : String) : Node :=
  .branch Component.tag [.leaf "id" "lamp", .leaf "type" "widget",
    .branch "nonConstantAttributes" [.branch Attribute.tag
      [.leaf "name" "brightness", .leaf "type" "float", .leaf "value" brightness]]]

/-- The lamp as it is registered. -/
def lamp (brightness : Binary64) : Component :=
  { id := ⟨"lamp"⟩, kind := .widget
    nonConstant := .ofList [.valued "brightness" (.float brightness)] }

/-- The first noon of a year. -/
def noon : Timestamp := ⟨1735732800, 0⟩

theorem isMoment_noon : noon.IsMoment := ⟨⟨by decide, by decide⟩, by decide, by decide⟩

/-- A service at which the lamp has been registered. -/
def withLamp (brightness : Binary64) : Mediator RegistrationLog :=
  [⟨noon, ⟨0⟩, .register (lamp brightness) none⟩].foldl experience
    (new {} (.fresh noon) (fun _ => "") fun _ => default)

theorem list_withLamp (x : Binary64) : (withLamp x).directory.list = [lamp x] := by
  have filled : (lamp x).id.isBlank = false := by
    show Text.isBlankText "lamp" = false
    decide
  have faultless : Registry.Faultless {} := fun _ _ => rfl
  obtain ⟨d, hinsert, hadd⟩ := Registry.add_of_faultless faultless filled
  have hdirectory : (withLamp x).directory = d := by
    unfold withLamp
    simp only [List.foldl_cons, List.foldl_nil, experience, perform, register, new, hadd,
      directory, notify_registry, record_registry, Registry.after_directory]
  obtain ⟨-, -, hsupplant⟩ := Directory.insert_eq_ok.mp hinsert
  rw [hdirectory, hsupplant]
  unfold Directory.list
  rw [components_supplant]
  rfl

/-- The message may give half of the brightness or none that is a number. With the former the
service starts again, with the latter it does not. -/
theorem reopened_iff_finite_lamp :
    Component.ofNode (lampNode "0.5") = .ok (lamp (.ofRatio false 1 2)) ∧
    Component.ofNode (lampNode "NaN") = .ok (lamp .nan) ∧
    (∃ l, RegistrationLog.openOn noon (withLamp (.ofRatio false 1 2)).journal.disk = .ok l ∧
      Journal.load l = .ok [lamp (.ofRatio false 1 2)]) ∧
    RegistrationLog.openOn noon (withLamp .nan).journal.disk = .error .serialization := by
  have moments : ∀ x, ∀ e ∈ [Event.mk noon ⟨0⟩ (.register (lamp x) none)], e.clock.IsMoment := by
    intro x e he
    rw [List.mem_singleton.mp he]
    exact isMoment_noon
  have running : ∀ x, ∀ e ∈ [Event.mk noon ⟨0⟩ (.register (lamp x) none)],
      e.operation.isRestart = false := by
    intro x e he
    rw [List.mem_singleton.mp he]
    rfl
  have hdoubles : ∀ x, (lamp x).doubles = [x] := fun _ => rfl
  have durable : ∀ x : Binary64, (x.isFinite = true → x.Durable) →
      ∀ c ∈ (withLamp x).directory.list, DurableWhereFinite c.doubles := by
    intro x hx c hc y hy
    rw [list_withLamp] at hc
    rw [List.mem_singleton.mp hc, hdoubles] at hy
    rw [List.mem_singleton.mp hy]
    exact hx
  refine ⟨by decide +kernel, by decide +kernel, ?_, ?_⟩
  · have hreopened := (reopened_iff_finite {} (fun _ => "") (fun _ => default) isMoment_noon
      (moments (.ofRatio false 1 2)) (running (.ofRatio false 1 2)) noon
      (durable (.ofRatio false 1 2) (by decide +kernel))).1
    rw [← list_withLamp]
    refine hreopened.mpr fun c hc x hx => ?_
    have hc' : c ∈ (withLamp (.ofRatio false 1 2)).directory.list := hc
    rw [list_withLamp] at hc'
    rw [List.mem_singleton.mp hc', hdoubles] at hx
    rw [List.mem_singleton.mp hx]
    decide +kernel
  · have unfinite : Binary64.nan.isFinite = true → Binary64.nan.Durable := by
      intro h
      cases h
    have hfailed := (reopened_iff_finite {} (fun _ => "") (fun _ => default) isMoment_noon
      (moments .nan) (running .nan) noon (durable .nan unfinite)).2.1
    have hmem : lamp .nan ∈ (withLamp .nan).directory.list := by
      rw [list_withLamp]
      exact List.mem_singleton.mpr rfl
    exact hfailed ⟨lamp .nan, hmem, .nan, List.mem_singleton.mpr rfl, rfl⟩

end Mediator

end Rendezvous
