import Rendezvous.Proofs.Component.Json
import Rendezvous.Proofs.Time.Timestamp
import Rendezvous.Service.Journal
/-!
# Registrations in a file

A registration log whose writes succeed has a file that is a snapshot of its entries
(`RegistrationLog.Saved`). To open the log in this file again gives the same entries or, if a double
that is not finite is among them, an error (`RegistrationLog.Saved.openOn`): one such double makes
the file no snapshot at all.
-/

namespace Rendezvous

namespace LogEntry

/-- The doubles among the attributes of the registered component. -/
def doubles (e : LogEntry) : List Binary64 := e.component.doubles

theorem readsAs_moment {t : Timestamp} (h : t.IsMoment) (depth : Nat) :
    Json.ReadsAs momentOfJson? depth (.string t.text) (some t) := by
  have hread := (Json.readsAs_string depth t.text).bind Timestamp.ofText?
  rw [Option.bind_some, Timestamp.ofText?_text h] at hread
  exact hread

theorem readsAs {e : LogEntry} (moment : e.registeredAt.IsMoment)
    (durable : DurableWhereFinite e.doubles) (depth : Nat) :
    Json.ReadsAs ofJson? (depth + 5) e.toJson (whenFinite e.doubles e) := by
  obtain ⟨registeredAt, hregisteredAt, dregisteredAt⟩ := readsAs_moment moment (depth + 4)
  obtain ⟨component, hcomponent, dcomponent⟩ := Component.readsAs durable depth
  let members := [("registered_at", registeredAt), ("description", component)]
  have hreads : Json.Reads e.toJson (.object members) :=
    .object (.cons ⟨rfl, hregisteredAt⟩ (.cons ⟨rfl, hcomponent⟩ .nil))
  let r : Json.Record := ⟨depth + 4, false, members⟩
  have hrecord : Json.record? ["registered_at", "description"] (depth + 5) (.object members) =
      some r :=
    Json.record?_object ["registered_at", "description"] members rfl (by decide) (depth + 4)
  have rregisteredAt : r.required "registered_at" momentOfJson? = some e.registeredAt :=
    (Json.Record.required_of_find? rfl).trans dregisteredAt
  have rcomponent : r.required "description" Component.ofJson? =
      whenFinite e.component.doubles e.component :=
    (Json.Record.required_of_find? rfl).trans dcomponent
  refine ⟨.object members, hreads, ?_⟩
  simp only [ofJson?, hrecord, rregisteredAt, rcomponent, Option.bind_eq_bind, Option.bind_some,
    bind_whenFinite_some]
  rfl

end LogEntry

namespace Snapshot

/-- The doubles among the attributes of all components. -/
def doubles (s : Snapshot) : List Binary64 := s.entries.flatMap LogEntry.doubles

/-- What a written snapshot is read as. -/
theorem ofText_text {s : Snapshot} (hversion : s.version ≤ snapshotVersion)
    (saved : s.savedAt.IsMoment) (registered : ∀ e ∈ s.entries, e.registeredAt.IsMoment)
    (durable : DurableWhereFinite s.doubles) :
    ofText s.text =
      if s.doubles.all Binary64.isFinite then .ok s else .error .serialization := by
  have hbound : s.version < UInt32.size := by
    exact Nat.lt_of_le_of_lt hversion (by decide)
  obtain ⟨version, hreadsVersion, dversion⟩ :=
    Json.readsAs_natural hbound (by decide) (Json.maxDepth - 1)
  obtain ⟨savedAt, hsavedAt, dsavedAt⟩ := LogEntry.readsAs_moment saved (Json.maxDepth - 1)
  have hentries : Json.ReadsAs (Json.asList LogEntry.ofJson?) (Json.maxDepth - 1)
      (.array (s.entries.map LogEntry.toJson)) (whenFinite s.doubles s.entries) := by
    have hlist : Json.ReadsAs (Json.asList LogEntry.ofJson?) (Json.maxDepth - 1)
        (.array (s.entries.map LogEntry.toJson))
        (s.entries.mapM fun e => whenFinite e.doubles e) := by
      refine Json.ReadsAs.list fun e he => ?_
      refine LogEntry.readsAs (registered e he) (durable.of_subset fun x hx => ?_) 120
      exact List.mem_flatMap.mpr ⟨e, he, hx⟩
    rwa [mapM_whenFinite LogEntry.doubles, List.map_id'] at hlist
  obtain ⟨entries, hreadsEntries, dentries⟩ := hentries
  let members := [("version", version), ("saved_at", savedAt), ("components", entries)]
  let r : Json.Record := ⟨Json.maxDepth - 1, false, members⟩
  have hrecord : Json.record? ["version", "saved_at", "components"] Json.maxDepth
      (.object members) = some r :=
    Json.record?_object ["version", "saved_at", "components"] members rfl (by decide)
      (Json.maxDepth - 1)
  have rversion : r.required "version" (Json.asNatural UInt32.size) = some s.version :=
    (Json.Record.required_of_find? rfl).trans dversion
  have rsavedAt : r.required "saved_at" LogEntry.momentOfJson? = some s.savedAt :=
    (Json.Record.required_of_find? rfl).trans dsavedAt
  have rentries : r.required "components" (Json.asList LogEntry.ofJson?) =
      whenFinite s.doubles s.entries :=
    (Json.Record.required_of_find? rfl).trans dentries
  have hdecodes : ofJson? Json.maxDepth (.object members) = whenFinite s.doubles s := by
    unfold ofJson?
    rw [hrecord, Option.bind_eq_bind, Option.bind_some, rversion]
    simp only [rsavedAt, rentries, Option.bind_eq_bind, Option.bind_some, bind_whenFinite_some]
  have hreads : Json.ReadsAs ofJson? Json.maxDepth
      (.object [("version", Json.natural s.version), ("saved_at", .string s.savedAt.text),
        ("components", .array (s.entries.map LogEntry.toJson))]) (whenFinite s.doubles s) :=
    ⟨.object members, .object (.cons ⟨rfl, hreadsVersion⟩ (.cons ⟨rfl, hsavedAt⟩
      (.cons ⟨rfl, hreadsEntries⟩ .nil))), hdecodes⟩
  unfold ofText text
  rw [hreads.decodeText?]
  unfold whenFinite
  cases s.doubles.all Binary64.isFinite with
  | false => rfl
  | true =>
    have hsupported : ¬ snapshotVersion < s.version := by omega
    show (if snapshotVersion < s.version then _ else _) = _
    rw [if_neg hsupported]
    rfl

/-- Whether a snapshot is what a file has: the file is as the snapshot is written, or it is read as
the snapshot. -/
def Fills (s : Snapshot) (content : String) : Prop := content = s.text ∨ ofText content = .ok s

end Snapshot

namespace RegistrationLog

/-- Whether the log has each entry under the name of its component, and the file has the entries.
There is no file before the first change. -/
structure Saved (l : RegistrationLog) : Prop where
  keyed : ∀ id e, l.entries.get? id = some e → e.component.id = id
  stamped : ∀ id e, l.entries.get? id = some e → e.registeredAt.IsMoment
  intact : ∀ n, l.disk.fails n = false
  content : (l.disk.content = none ∧ l.entries = ∅) ∨
    ∃ savedAt : Timestamp, savedAt.IsMoment ∧
      l.disk.content = some (Snapshot.text ⟨snapshotVersion, savedAt, l.entries.values⟩)

/-- The log at another moment. -/
def atClock (l : RegistrationLog) (clock : Timestamp) : RegistrationLog := { l with clock }

/-- The log in a file that is not there yet. -/
def fresh (clock : Timestamp) : RegistrationLog := ⟨clock, ∅, {}⟩

theorem saved_fresh (clock : Timestamp) : (fresh clock).Saved where
  keyed _ _ h := by cases h
  stamped _ _ h := by cases h
  intact _ := rfl
  content := .inl ⟨rfl, rfl⟩

theorem Saved.atClock {l : RegistrationLog} (saved : l.Saved) (clock : Timestamp) :
    (l.atClock clock).Saved where
  keyed := saved.keyed
  stamped := saved.stamped
  intact := saved.intact
  content := saved.content

theorem save_of_intact {l : RegistrationLog} (intact : ∀ n, l.disk.fails n = false) :
    l.save.2 = { l with disk :=
      { l.disk with writes := l.disk.writes + 1, content := some l.snapshot.text } } := by
  unfold save Disk.write
  simp only [intact, Bool.false_eq_true, ↓reduceIte]

/-- A write that succeeds puts the entries of the moment into the file. -/
theorem saved_save {l : RegistrationLog} (moment : l.clock.IsMoment)
    (keyed : ∀ id e, l.entries.get? id = some e → e.component.id = id)
    (stamped : ∀ id e, l.entries.get? id = some e → e.registeredAt.IsMoment)
    (intact : ∀ n, l.disk.fails n = false) : l.save.2.Saved := by
  rw [save_of_intact intact]
  exact ⟨keyed, stamped, intact, .inr ⟨l.clock, moment, rfl⟩⟩

theorem record_entries (l : RegistrationLog) (c : Component) :
    (l.record c).2.entries = l.entries.insert c.id ⟨l.clock, c⟩ := rfl

theorem forget_entries (l : RegistrationLog) (id id' : ComponentId) :
    (l.forget id).2.entries.get? id' = if id' = id then none else l.entries.get? id' := by
  unfold forget
  split
  · exact SortedMap.get?_erase l.entries id id'
  · next hcontains =>
    have hnone : l.entries.get? id = none := by
      simpa [SortedMap.contains] using hcontains
    by_cases h : id' = id
    · rw [if_pos h, h]
      exact hnone
    · rw [if_neg h]

theorem Saved.record {l : RegistrationLog} (saved : l.Saved) (moment : l.clock.IsMoment)
    (c : Component) : (l.record c).2.Saved := by
  refine saved_save moment ?_ ?_ saved.intact
  · intro id e h
    rw [SortedMap.get?_insert] at h
    split at h
    · next hid =>
      cases h
      exact hid.symm
    · exact saved.keyed id e h
  · intro id e h
    rw [SortedMap.get?_insert] at h
    split at h
    · cases h
      exact moment
    · exact saved.stamped id e h

theorem Saved.forget {l : RegistrationLog} (saved : l.Saved) (moment : l.clock.IsMoment)
    (id : ComponentId) : (l.forget id).2.Saved := by
  unfold RegistrationLog.forget
  split
  · refine saved_save moment ?_ ?_ saved.intact
    · intro id' e h
      rw [SortedMap.get?_erase] at h
      split at h
      · cases h
      · exact saved.keyed id' e h
    · intro id' e h
      rw [SortedMap.get?_erase] at h
      split at h
      · cases h
      · exact saved.stamped id' e h
  · exact saved

/-- The doubles among the attributes of all components. -/
def doubles (l : RegistrationLog) : List Binary64 := l.components.flatMap Component.doubles

/-- The entries of a log are made again from the list of them. -/
theorem Saved.ofList_values {l : RegistrationLog} (saved : l.Saved) :
    SortedMap.ofList (l.entries.values.map fun e => (e.component.id, e)) = l.entries := by
  rw [SortedMap.map_values_eq_toList saved.keyed, SortedMap.ofList_toList]

/-- What comes of opening the log in its file again. -/
theorem Saved.openOn {l : RegistrationLog} (saved : l.Saved)
    (durable : DurableWhereFinite l.doubles) (clock : Timestamp) :
    openOn clock l.disk =
      if l.doubles.all Binary64.isFinite then .ok (l.atClock clock)
      else .error .serialization := by
  rcases saved.content with ⟨hnone, hempty⟩ | ⟨savedAt, moment, hcontent⟩
  · have hdoubles : l.doubles = [] := by
      unfold doubles components
      rw [hempty]
      rfl
    unfold RegistrationLog.openOn RegistrationLog.atClock
    rw [hnone, hdoubles, hempty]
    rfl
  · have hdoubles :
        Snapshot.doubles ⟨snapshotVersion, savedAt, l.entries.values⟩ = l.doubles := by
      unfold Snapshot.doubles doubles components
      rw [List.flatMap_map]
      rfl
    have hstamped : ∀ e ∈ l.entries.values, e.registeredAt.IsMoment := by
      intro e he
      obtain ⟨id, hid⟩ := SortedMap.mem_values.mp he
      exact saved.stamped id e hid
    have hread := Snapshot.ofText_text (s := ⟨snapshotVersion, savedAt, l.entries.values⟩)
      (Nat.le_refl _) moment hstamped (by rw [hdoubles]; exact durable)
    unfold RegistrationLog.openOn RegistrationLog.atClock
    rw [hcontent]
    simp only
    rw [hread, hdoubles]
    split
    · simp only [Except.map]
      rw [saved.ofList_values]
    · rfl

/-- The log is the same again, unless a double is not finite. -/
theorem Saved.openOn_eq_ok {l l' : RegistrationLog} (saved : l.Saved)
    (durable : DurableWhereFinite l.doubles) {clock : Timestamp} :
    RegistrationLog.openOn clock l.disk = .ok l' ↔
      (∀ x ∈ l.doubles, x.isFinite = true) ∧ l' = l.atClock clock := by
  rw [saved.openOn durable]
  by_cases hall : l.doubles.all Binary64.isFinite = true
  · rw [if_pos hall, Except.ok.injEq]
    constructor
    · intro hsame
      exact ⟨List.all_eq_true.mp hall, hsame.symm⟩
    · rintro ⟨-, hsame⟩
      exact hsame.symm
  · rw [if_neg hall]
    constructor
    · intro h
      cases h
    · rintro ⟨hfinite, -⟩
      exact absurd (List.all_eq_true.mpr hfinite) hall

theorem Saved.openOn_of_unfinite {l : RegistrationLog} (saved : l.Saved)
    (durable : DurableWhereFinite l.doubles) (clock : Timestamp) {x : Binary64}
    (hmem : x ∈ l.doubles) (hx : x.isFinite = false) :
    RegistrationLog.openOn clock l.disk = .error .serialization := by
  rw [saved.openOn durable]
  refine if_neg fun hall => ?_
  have hfinite : x.isFinite = true := List.all_eq_true.mp hall x hmem
  rw [hx] at hfinite
  cases hfinite

/-! ## Which components the file names -/

/-- Whether the log has each entry under the name of its component, and writes succeed, so that a
file names nobody who has no entry. It may have been there before and have been read. -/
structure Filed (l : RegistrationLog) : Prop where
  keyed : ∀ id e, l.entries.get? id = some e → e.component.id = id
  intact : ∀ n, l.disk.fails n = false
  file : ∀ content, l.disk.content = some content → ∃ s : Snapshot, s.Fills content ∧
    ∀ e ∈ s.entries, l.entries.contains e.component.id = true

/-- Whether neither the entries nor the file have a component. -/
structure Lacks (l : RegistrationLog) (id : ComponentId) : Prop where
  entries : ∀ c ∈ l.components, c.id ≠ id
  file : ∀ content, l.disk.content = some content → ∃ s : Snapshot, s.Fills content ∧
    ∀ e ∈ s.entries, e.component.id ≠ id

theorem filed_openOn {clock : Timestamp} {disk : Disk} {l : RegistrationLog}
    (h : RegistrationLog.openOn clock disk = .ok l) (intact : ∀ n, disk.fails n = false) :
    l.Filed := by
  unfold RegistrationLog.openOn at h
  cases hcontent : disk.content with
  | none =>
    rw [hcontent] at h
    cases h
    refine ⟨fun id e he => (by cases he), intact, fun content h => ?_⟩
    rw [hcontent] at h
    cases h
  | some content =>
    rw [hcontent] at h
    cases hread : Snapshot.ofText content with
    | error e =>
      simp only [hread] at h
      cases h
    | ok s =>
      simp only [hread] at h
      cases h
      refine ⟨fun id e he => ?_, intact, fun content' h => ⟨s, ?_, fun e he => ?_⟩⟩
      · rcases SortedMap.mem_of_get?_insertAll he with hmem | hempty
        · obtain ⟨e', -, he'⟩ := List.mem_map.mp hmem
          cases he'
          rfl
        · cases hempty
      · rw [hcontent] at h
        cases h
        exact .inr hread
      · refine (SortedMap.contains_insertAll _ _ _).mpr (.inr ?_)
        exact List.mem_map.mpr ⟨_, List.mem_map.mpr ⟨e, he, rfl⟩, rfl⟩

theorem Filed.atClock {l : RegistrationLog} (filed : l.Filed) (clock : Timestamp) :
    (l.atClock clock).Filed where
  keyed := filed.keyed
  intact := filed.intact
  file := filed.file

theorem filed_save {l : RegistrationLog}
    (keyed : ∀ id e, l.entries.get? id = some e → e.component.id = id)
    (intact : ∀ n, l.disk.fails n = false) : l.save.2.Filed := by
  rw [save_of_intact intact]
  refine ⟨keyed, intact, fun content h => ⟨l.snapshot, .inl (Option.some.inj h).symm, ?_⟩⟩
  intro e he
  obtain ⟨id, hid⟩ := SortedMap.mem_values.mp he
  rw [keyed id e hid]
  exact SortedMap.contains_iff.mpr ⟨e, hid⟩

theorem Filed.record {l : RegistrationLog} (filed : l.Filed) (c : Component) :
    (l.record c).2.Filed := by
  refine filed_save (fun id e h => ?_) filed.intact
  rw [SortedMap.get?_insert] at h
  split at h
  · next hid =>
    cases h
    exact hid.symm
  · exact filed.keyed id e h

theorem Filed.forget {l : RegistrationLog} (filed : l.Filed) (id : ComponentId) :
    (l.forget id).2.Filed := by
  unfold RegistrationLog.forget
  split
  · refine filed_save (fun id' e h => ?_) filed.intact
    rw [SortedMap.get?_erase] at h
    split at h
    · cases h
    · exact filed.keyed id' e h
  · exact filed

theorem Filed.lacks {l : RegistrationLog} (filed : l.Filed) {id : ComponentId}
    (h : l.entries.get? id = none) : l.Lacks id := by
  constructor
  · intro c hc
    obtain ⟨e, he, rfl⟩ := List.mem_map.mp hc
    obtain ⟨id', hid'⟩ := SortedMap.mem_values.mp he
    rintro rfl
    rw [filed.keyed id' e hid', hid'] at h
    cases h
  · intro content hcontent
    obtain ⟨s, fills, hs⟩ := filed.file content hcontent
    refine ⟨s, fills, fun e he => ?_⟩
    rintro rfl
    have hcontains := hs e he
    rw [SortedMap.contains, h] at hcontains
    cases hcontains

end RegistrationLog

end Rendezvous
