import Mathlib.Data.List.Induction
import Rendezvous.Proofs.Service.Restart
/-!
# What the file of a log has after a call

Calls of a registration log on a disk on which any write may fail. The file has what the log had
right after the last call that wrote (`RegistrationLog.written?`), or is not there if none did. From
this `RegistrationLog.calls_durable` says when an answer without an error can be relied on.

To note a registration always writes, so what is noted without an error is in the file, which can be
read unless a double in it is not finite. To strike one out writes only if there is an entry in
memory. The entry is taken out of memory before the write, and stays out if the write fails: then
the component remains in the file, and to strike it out once more says that all is well
(`RegistrationLog.Abandoned`).
-/

namespace Rendezvous

namespace RegistrationLog

/-! ## Calls -/

/-- A call of the log. -/
inductive Call
  | record (c : Component)
  | forget (id : ComponentId)

/-- The doubles in what is noted. -/
def Call.doubles : Call → List Binary64
  | .record c => c.doubles
  | .forget _ => []

/-- What a call answers at a moment, and the log after it. -/
def call (clock : Timestamp) (l : RegistrationLog) :
    Call → Except JournalError Unit × RegistrationLog
  | .record c => (l.atClock clock).record c
  | .forget id => (l.atClock clock).forget id

/-- The log after calls. -/
def after (l : RegistrationLog) (calls : List (Timestamp × Call)) : RegistrationLog :=
  calls.foldl (fun l c => (l.call c.1 c.2).2) l

theorem after_append (l : RegistrationLog) (calls calls' : List (Timestamp × Call)) :
    l.after (calls ++ calls') = (l.after calls).after calls' :=
  List.foldl_append

/-- Whether a call changes the file. Where there is nothing to strike out it does not try to. -/
def writes (l : RegistrationLog) (clock : Timestamp) (c : Call) : Bool :=
  (l.call clock c).1.isOk &&
    match c with
    | .record _ => true
    | .forget id => l.entries.contains id

/-- The log as it was right after the last call that has changed the file. -/
def written? (l : RegistrationLog) : List (Timestamp × Call) → Option RegistrationLog
  | [] => none
  | (clock, c) :: rest =>
    let l' := (l.call clock c).2
    (l'.written? rest).or (if l.writes clock c then some l' else none)

theorem written?_append (l : RegistrationLog) (calls calls' : List (Timestamp × Call)) :
    l.written? (calls ++ calls') =
      ((l.after calls).written? calls').or (l.written? calls) := by
  induction calls generalizing l with
  | nil => exact Option.or_none.symm
  | cons c rest ih =>
    rw [List.cons_append, written?, ih, Option.or_assoc]
    rfl

theorem written?_concat (l : RegistrationLog) (calls : List (Timestamp × Call)) (clock : Timestamp)
    (c : Call) : l.written? (calls ++ [(clock, c)]) =
      if (l.after calls).writes clock c then some ((l.after calls).call clock c).2
      else l.written? calls := by
  rw [written?_append]
  simp only [written?, Option.none_or]
  split
  · rfl
  · rfl

theorem exists_of_written? {l w : RegistrationLog} {calls : List (Timestamp × Call)}
    (h : l.written? calls = some w) :
    ∃ before c, before ++ [c] <+: calls ∧ w = l.after (before ++ [c]) := by
  induction calls using List.reverseRecOn with
  | nil => cases h
  | append_singleton calls c ih =>
    rw [written?_concat] at h
    split at h
    · refine ⟨calls, c, List.prefix_refl _, ?_⟩
      rw [after_append, ← Option.some.inj h]
      rfl
    · obtain ⟨before, c', earlier, hw⟩ := ih h
      exact ⟨before, c', earlier.trans (List.prefix_append _ _), hw⟩

/-! ## What a call does -/

theorem content_save (l : RegistrationLog) :
    (l.save.1 = .ok () ∧ l.save.2.disk.content = some l.snapshot.text) ∨
    (l.save.1 = .error .io ∧ l.save.2.disk.content = l.disk.content) := by
  unfold save Disk.write
  simp only
  split
  · exact .inr ⟨rfl, rfl⟩
  · exact .inl ⟨rfl, rfl⟩

theorem call_forget_of_known {l : RegistrationLog} (clock : Timestamp) {id : ComponentId}
    (known : l.entries.contains id = true) : l.call clock (.forget id) =
      save { l.atClock clock with entries := l.entries.erase id } :=
  if_pos known

theorem call_forget_of_unknown {l : RegistrationLog} (clock : Timestamp) {id : ComponentId}
    (unknown : l.entries.contains id = false) :
    l.call clock (.forget id) = (.ok (), l.atClock clock) :=
  if_neg (Bool.eq_false_iff.mp unknown)

theorem writes_forget (l : RegistrationLog) (clock : Timestamp) (id : ComponentId) :
    l.writes clock (.forget id) =
      ((l.call clock (.forget id)).1.isOk && l.entries.contains id) := rfl

/-- To strike out an entry writes or fails. -/
theorem failed_of_not_writes {l : RegistrationLog} {clock : Timestamp} {id : ComponentId}
    (known : l.entries.contains id = true) (h : l.writes clock (.forget id) = false) :
    (l.call clock (.forget id)).1 = .error .io := by
  rw [writes_forget, known, Bool.and_true, call_forget_of_known clock known] at h
  rw [call_forget_of_known clock known]
  rcases content_save { l.atClock clock with entries := l.entries.erase id } with
    ⟨hok, -⟩ | ⟨herror, -⟩
  · rw [hok] at h
    cases h
  · exact herror

/-- A call that changes the file puts into it what the log has after the call. -/
theorem content_call (l : RegistrationLog) (clock : Timestamp) (c : Call) :
    (l.call clock c).2.disk.content =
      if l.writes clock c then some (l.call clock c).2.snapshot.text else l.disk.content := by
  have saved : ∀ l' : RegistrationLog, l'.disk.content = l.disk.content →
      l'.save.2.disk.content =
        if l'.save.1.isOk then some l'.save.2.snapshot.text else l.disk.content := by
    intro l' hcontent
    rcases l'.content_save with ⟨hok, h⟩ | ⟨herror, h⟩
    · rw [hok, h]
      rfl
    · rw [herror, h, hcontent]
      rfl
  cases c with
  | record c =>
    unfold writes
    simp only [Bool.and_true]
    exact saved _ rfl
  | forget id =>
    rw [writes_forget]
    cases hknown : l.entries.contains id with
    | true =>
      rw [Bool.and_true, call_forget_of_known clock hknown]
      exact saved _ rfl
    | false =>
      rw [Bool.and_false, call_forget_of_unknown clock hknown]
      rfl

/-- The file has what was written last. -/
theorem content_after {l : RegistrationLog} (absent : l.disk.content = none)
    (calls : List (Timestamp × Call)) :
    (l.after calls).disk.content = (l.written? calls).map fun w => w.snapshot.text := by
  induction calls using List.reverseRecOn with
  | nil => exact absent
  | append_singleton calls c ih =>
    obtain ⟨clock, c⟩ := c
    rw [after_append, written?_concat]
    show ((l.after calls).call clock c).2.disk.content = _
    rw [content_call, ih]
    split
    · rfl
    · rfl

theorem get?_call (l : RegistrationLog) (clock : Timestamp) (c : Call) (id : ComponentId) :
    (l.call clock c).2.entries.get? id =
      match c with
      | .record c => if id = c.id then some ⟨clock, c⟩ else l.entries.get? id
      | .forget id' => if id = id' then none else l.entries.get? id := by
  cases c with
  | record c => exact SortedMap.get?_insert l.entries c.id id _
  | forget id' => exact forget_entries (l.atClock clock) id' id

/-- Whether each entry stands under the name of its component and can be read back. -/
structure Readable (l : RegistrationLog) : Prop where
  keyed : ∀ id e, l.entries.get? id = some e → e.component.id = id
  stamped : ∀ id e, l.entries.get? id = some e → e.registeredAt.IsMoment
  durable : ∀ id e, l.entries.get? id = some e → DurableWhereFinite e.doubles

theorem Readable.call {l : RegistrationLog} (readable : l.Readable) {clock : Timestamp}
    (moment : clock.IsMoment) {c : Call} (durable : DurableWhereFinite c.doubles) :
    (l.call clock c).2.Readable := by
  have entry : ∀ id e, (l.call clock c).2.entries.get? id = some e →
      l.entries.get? id = some e ∨ ∃ c', c = .record c' ∧ c'.id = id ∧ e = ⟨clock, c'⟩ := by
    intro id e h
    rw [get?_call] at h
    cases c with
    | record c' =>
      simp only at h
      split at h
      · next hid => exact .inr ⟨c', rfl, hid.symm, (Option.some.inj h).symm⟩
      · exact .inl h
    | forget id' =>
      simp only at h
      split at h
      · cases h
      · exact .inl h
  refine ⟨fun id e h => ?_, fun id e h => ?_, fun id e h => ?_⟩
  · rcases entry id e h with old | ⟨c', rfl, hid, rfl⟩
    · exact readable.keyed id e old
    · exact hid
  · rcases entry id e h with old | ⟨c', rfl, hid, rfl⟩
    · exact readable.stamped id e old
    · exact moment
  · rcases entry id e h with old | ⟨c', rfl, hid, rfl⟩
    · exact readable.durable id e old
    · exact durable

theorem Readable.after {l : RegistrationLog} (readable : l.Readable)
    {calls : List (Timestamp × Call)} (moments : ∀ c ∈ calls, c.1.IsMoment)
    (durable : ∀ c ∈ calls, DurableWhereFinite c.2.doubles) : (l.after calls).Readable := by
  induction calls generalizing l with
  | nil => exact readable
  | cons c rest ih =>
    have first : (l.call c.1 c.2).2.Readable :=
      readable.call (moments c List.mem_cons_self) (durable c List.mem_cons_self)
    exact ih first (fun c' h => moments c' (List.mem_cons_of_mem c h))
      fun c' h => durable c' (List.mem_cons_of_mem c h)

/-- What was written is read as it was, unless a double is not finite. -/
theorem Readable.ofText_snapshot {l : RegistrationLog} (readable : l.Readable)
    (moment : l.clock.IsMoment) :
    Snapshot.ofText l.snapshot.text =
      if l.doubles.all Binary64.isFinite then .ok l.snapshot else .error .serialization := by
  have hdoubles : l.snapshot.doubles = l.doubles := by
    unfold Snapshot.doubles doubles components
    rw [List.flatMap_map]
    rfl
  rw [← hdoubles]
  refine Snapshot.ofText_text (Nat.le_refl _) moment (fun e he => ?_) fun x hx => ?_
  · obtain ⟨id, hid⟩ := SortedMap.mem_values.mp he
    exact readable.stamped id e hid
  · obtain ⟨e, he, hmem⟩ := List.mem_flatMap.mp hx
    obtain ⟨id, hid⟩ := SortedMap.mem_values.mp he
    exact readable.durable id e hid x hmem

/-! ## What the file lists -/

/-- The entries in the file, if it can be read. -/
def listing (l : RegistrationLog) : Except JournalError (List LogEntry) :=
  match l.disk.content with
  | none => .ok []
  | some content => (Snapshot.ofText content).map Snapshot.entries

/-- Whether the file has an entry, and no other for the same component. -/
def Lists (l : RegistrationLog) (e : LogEntry) : Prop :=
  ∃ es, l.listing = .ok es ∧ e ∈ es ∧ ∀ e' ∈ es, e'.component.id = e.component.id → e' = e

/-- Whether the file has no entry for a component. -/
def Omits (l : RegistrationLog) (id : ComponentId) : Prop :=
  ∃ es, l.listing = .ok es ∧ ∀ e ∈ es, e.component.id ≠ id

/-- Whether a component was in the file when it was to be struck out and the file could not be
written, and since then nothing has been written and the component has not been noted again. -/
def Abandoned (l : RegistrationLog) (calls : List (Timestamp × Call)) (id : ComponentId) : Prop :=
  ∃ before clock rest, calls = before ++ (clock, .forget id) :: rest ∧
    (∃ w, l.written? before = some w ∧ w.entries.contains id = true) ∧
    ((l.after before).call clock (.forget id)).1 = .error .io ∧
    (l.after (before ++ [(clock, .forget id)])).written? rest = none ∧
    ∀ c ∈ rest, ∀ c', c.2 = .record c' → c'.id ≠ id

/-- A component without an entry is in what was written last exactly if it was abandoned. -/
theorem abandoned_iff {l : RegistrationLog}
    {calls : List (Timestamp × Call)} {id : ComponentId}
    (absent : (l.after calls).entries.get? id = none) :
    l.Abandoned calls id ↔ ∃ w, l.written? calls = some w ∧ w.entries.contains id = true := by
  constructor
  · rintro ⟨before, clock, rest, rfl, ⟨w, hw, hcontains⟩, failed, silent, -⟩
    refine ⟨w, ?_, hcontains⟩
    have unwritten : (l.after before).writes clock (.forget id) = false := by
      rw [writes, failed]
      rfl
    rw [List.append_cons, written?_append, silent, Option.none_or, written?_concat, unwritten]
    exact hw
  · rintro ⟨w, hw, hcontains⟩
    induction calls using List.reverseRecOn with
    | nil => cases hw
    | append_singleton calls c ih =>
      obtain ⟨clock, c⟩ := c
      rw [after_append] at absent
      replace absent : ((l.after calls).call clock c).2.entries.get? id = none := absent
      rw [written?_concat] at hw
      split at hw
      · -- What was written just now has no entry either.
        rw [← Option.some.inj hw, SortedMap.contains, absent] at hcontains
        cases hcontains
      · next hwrites =>
        replace hwrites : (l.after calls).writes clock c = false := Bool.eq_false_iff.mpr hwrites
        cases hbefore : (l.after calls).entries.get? id with
        | none =>
          obtain ⟨before, clock', rest, hcalls, hlisted, failed, silent, unrecorded⟩ :=
            ih hbefore hw
          refine ⟨before, clock', rest ++ [(clock, c)], ?_, hlisted, failed, ?_, ?_⟩
          · rw [hcalls, List.append_assoc, List.cons_append]
          · rw [written?_concat, ← after_append, List.append_assoc, List.singleton_append, ← hcalls,
              hwrites]
            exact silent
          · intro c' hc' d hd
            rcases List.mem_append.mp hc' with hc' | hc'
            · exact unrecorded c' hc' d hd
            · rw [List.mem_singleton.mp hc'] at hd
              replace hd : c = .record d := hd
              rintro rfl
              rw [hd, get?_call] at absent
              simp at absent
        | some e =>
          have known : (l.after calls).entries.contains id = true :=
            SortedMap.contains_iff.mpr ⟨e, hbefore⟩
          have struck : c = .forget id := by
            rw [get?_call, hbefore] at absent
            cases c with
            | record c' =>
              simp only at absent
              split at absent
              · cases absent
              · cases absent
            | forget id' =>
              simp only at absent
              split at absent
              · next hid => rw [hid]
              · cases absent
          rw [struck] at hwrites ⊢
          exact ⟨calls, clock, [], rfl, ⟨w, hw, hcontains⟩, failed_of_not_writes known hwrites,
            rfl,
            fun c h => absurd h List.not_mem_nil⟩

/-! ## What the answers are worth -/

theorem clock_call (l : RegistrationLog) (clock : Timestamp) (c : Call) :
    (l.call clock c).2.clock = clock := by
  cases c with
  | record c => rfl
  | forget id =>
    cases hknown : l.entries.contains id with
    | true =>
      rw [call_forget_of_known clock hknown]
      rfl
    | false =>
      rw [call_forget_of_unknown clock hknown]
      rfl

theorem readable_openOn {first : Timestamp} {fails : Nat → Bool} {l : RegistrationLog}
    (opened : openOn first { fails } = .ok l) : l.Readable ∧ l.disk.content = none := by
  cases opened
  exact ⟨⟨fun _ _ h => (by cases h), fun _ _ h => (by cases h), fun _ _ h => (by cases h)⟩, rfl⟩

/-- What was written can be read, unless a double is not finite. -/
theorem readable_of_written? {l w : RegistrationLog} (readable : l.Readable)
    {calls : List (Timestamp × Call)} (moments : ∀ c ∈ calls, c.1.IsMoment)
    (durable : ∀ c ∈ calls, DurableWhereFinite c.2.doubles) (h : l.written? calls = some w) :
    w.Readable ∧ Snapshot.ofText w.snapshot.text =
      if w.doubles.all Binary64.isFinite then .ok w.snapshot else .error .serialization := by
  obtain ⟨before, c, earlier, rfl⟩ := exists_of_written? h
  have written : (l.after (before ++ [c])).Readable :=
    readable.after (fun c' h => moments c' (earlier.subset h))
      fun c' h => durable c' (earlier.subset h)
  have moment : (l.after (before ++ [c])).clock.IsMoment := by
    rw [after_append]
    show ((l.after before).call c.1 c.2).2.clock.IsMoment
    rw [clock_call]
    exact moments c (earlier.subset (List.mem_append_right _ List.mem_cons_self))
  exact ⟨written, written.ofText_snapshot moment⟩

/-- What a file lists that was written with these entries. -/
theorem listing_of_content {l w : RegistrationLog}
    (content : l.disk.content = some w.snapshot.text)
    (hread : Snapshot.ofText w.snapshot.text =
      if w.doubles.all Binary64.isFinite then .ok w.snapshot else .error .serialization)
    {es : List LogEntry} :
    l.listing = .ok es ↔ (∀ x ∈ w.doubles, x.isFinite = true) ∧ es = w.entries.values := by
  unfold listing
  rw [content]
  simp only [hread]
  by_cases hall : w.doubles.all Binary64.isFinite = true
  · have finite : ∀ x ∈ w.doubles, x.isFinite = true := List.all_eq_true.mp hall
    rw [if_pos hall]
    constructor
    · intro h
      exact ⟨finite, (Except.ok.inj h).symm⟩
    · rintro ⟨-, rfl⟩
      rfl
  · rw [if_neg hall]
    constructor
    · intro h
      cases h
    · rintro ⟨finite, -⟩
      exact absurd (List.all_eq_true.mpr finite) hall

section Calls

variable {l : RegistrationLog} {calls before : List (Timestamp × Call)} {clock : Timestamp}

/-- What was noted without an error is in the file exactly if the file can be read. -/
theorem lists_iff (readable : l.Readable) (absent : l.disk.content = none)
    (moments : ∀ c ∈ calls, c.1.IsMoment)
    (durable : ∀ c ∈ calls, DurableWhereFinite c.2.doubles) {d : Component}
    (hcalls : calls = before ++ [(clock, .record d)])
    (hok : ((l.after before).call clock (.record d)).1 = .ok ()) :
    (l.after calls).Lists ⟨clock, d⟩ ↔ ∀ x ∈ (l.after calls).doubles, x.isFinite = true := by
  have hwritten : l.written? calls = some (l.after calls) := by
    have hwrites : (l.after before).writes clock (.record d) = true := by
      rw [writes, hok]
      rfl
    rw [hcalls, written?_concat, hwrites, after_append]
    rfl
  have content := content_after absent calls
  rw [hwritten] at content
  obtain ⟨hafter, hread⟩ := readable_of_written? readable moments durable hwritten
  have hentry : (l.after calls).entries.get? d.id = some ⟨clock, d⟩ := by
    rw [hcalls, after_append]
    show ((l.after before).call clock (.record d)).2.entries.get? d.id = _
    rw [get?_call]
    exact if_pos rfl
  constructor
  · rintro ⟨es, hlisting, -⟩
    exact ((listing_of_content content hread).mp hlisting).1
  · intro finite
    refine ⟨_, (listing_of_content content hread).mpr ⟨finite, rfl⟩,
      SortedMap.mem_values.mpr ⟨d.id, hentry⟩, fun e' he' hid => ?_⟩
    obtain ⟨id', hid'⟩ := SortedMap.mem_values.mp he'
    replace hid : e'.component.id = d.id := hid
    rw [hafter.keyed id' e' hid'] at hid
    rw [hid, hentry] at hid'
    exact (Option.some.inj hid').symm

/-- None of the entries is of a component that has none. -/
theorem Readable.mem_values_ne_iff {w : RegistrationLog} (readable : w.Readable)
    (id : ComponentId) :
    (∀ e ∈ w.entries.values, e.component.id ≠ id) ↔ ¬ w.entries.contains id = true := by
  rw [SortedMap.contains_iff]
  constructor
  · rintro hall ⟨e, he⟩
    exact hall e (SortedMap.mem_values.mpr ⟨id, he⟩) (readable.keyed id e he)
  · intro hnone e he hid
    obtain ⟨id', hid'⟩ := SortedMap.mem_values.mp he
    rw [readable.keyed id' e hid'] at hid
    exact hnone ⟨e, hid ▸ hid'⟩

/-- What was struck out without an error is not in the file exactly if the file can be read and the
component was not abandoned in it. -/
theorem omits_iff (readable : l.Readable) (absent : l.disk.content = none)
    (moments : ∀ c ∈ calls, c.1.IsMoment)
    (durable : ∀ c ∈ calls, DurableWhereFinite c.2.doubles) {id : ComponentId}
    (hcalls : calls = before ++ [(clock, .forget id)]) :
    (l.after calls).Omits id ↔
      (∀ w, l.written? calls = some w → ∀ x ∈ w.doubles, x.isFinite = true) ∧
        ¬ l.Abandoned calls id := by
  have content := content_after absent calls
  have hentry : (l.after calls).entries.get? id = none := by
    rw [hcalls, after_append]
    show ((l.after before).call clock (.forget id)).2.entries.get? id = _
    rw [get?_call]
    exact if_pos rfl
  rw [abandoned_iff hentry]
  cases hwritten : l.written? calls with
  | none =>
    rw [hwritten] at content
    constructor
    · intro _
      exact ⟨fun w h => (by cases h), fun ⟨w, h, _⟩ => (by cases h)⟩
    · intro _
      refine ⟨[], ?_, fun e h => absurd h List.not_mem_nil⟩
      unfold listing
      rw [content]
      rfl
  | some w =>
    obtain ⟨hkept, hread⟩ := readable_of_written? readable moments durable hwritten
    rw [hwritten] at content
    constructor
    · rintro ⟨es, hlisting, homits⟩
      obtain ⟨finite, rfl⟩ := (listing_of_content content hread).mp hlisting
      refine ⟨fun w' hw' => Option.some.inj hw' ▸ finite, ?_⟩
      rintro ⟨w', hw', hcontains⟩
      rw [← Option.some.inj hw'] at hcontains
      exact (hkept.mem_values_ne_iff id).mp homits hcontains
    · rintro ⟨finite, hlost⟩
      exact ⟨_, (listing_of_content content hread).mpr ⟨finite w rfl, rfl⟩,
        (hkept.mem_values_ne_iff id).mpr fun hcontains => hlost ⟨w, rfl, hcontains⟩⟩

end Calls

/-- For any calls on a log whose file was not there, and any writes that fail: the file has what was
written last, if anything was, which was all that the log had right after one of the calls. To note
a registration without an error puts it into the file, exactly if the file can be read. To strike
one out without an error takes it out of the file, exactly if the file can be read and the component
was not abandoned in it. -/
theorem calls_durable {first : Timestamp} {fails : Nat → Bool} {l : RegistrationLog}
    (opened : openOn first { fails } = .ok l) {calls : List (Timestamp × Call)}
    (moments : ∀ c ∈ calls, c.1.IsMoment)
    (durable : ∀ c ∈ calls, DurableWhereFinite c.2.doubles) :
    ((l.after calls).disk.content = (l.written? calls).map (fun w => w.snapshot.text) ∧
      ∀ w, l.written? calls = some w →
        (∃ before c, before ++ [c] <+: calls ∧ w = l.after (before ++ [c])) ∧
        Snapshot.ofText w.snapshot.text =
          if w.doubles.all Binary64.isFinite then .ok w.snapshot else .error .serialization) ∧
    (∀ before clock d, calls = before ++ [(clock, .record d)] →
      ((l.after before).call clock (.record d)).1 = .ok () →
      ((l.after calls).Lists ⟨clock, d⟩ ↔ ∀ x ∈ (l.after calls).doubles, x.isFinite = true)) ∧
    ∀ before clock id, calls = before ++ [(clock, .forget id)] →
      ((l.after before).call clock (.forget id)).1 = .ok () →
      ((l.after calls).Omits id ↔
        (∀ w, l.written? calls = some w → ∀ x ∈ w.doubles, x.isFinite = true) ∧
          ¬ l.Abandoned calls id) := by
  obtain ⟨readable, absent⟩ := readable_openOn opened
  refine ⟨⟨content_after absent calls, fun w hw => ⟨exists_of_written? hw,
    (readable_of_written? readable moments durable hw).2⟩⟩, ?_, ?_⟩
  · intro before clock d hcalls hok
    exact lists_iff readable absent moments durable hcalls hok
  · intro before clock id hcalls _
    exact omits_iff readable absent moments durable hcalls

/-- A log on a disk on which the second write fails. -/
def unreliable : RegistrationLog := ⟨Mediator.noon, ∅, { fails := fun n => n = 1 }⟩

/-- A lamp is noted and then struck out twice. -/
def struckTwice (brightness : Binary64) : List (Timestamp × Call) :=
  [(Mediator.noon, .record (Mediator.lamp brightness)), (Mediator.noon, .forget ⟨"lamp"⟩),
    (Mediator.noon, .forget ⟨"lamp"⟩)]

/-- The lamp is noted, with a brightness that is a number; the second time that it is struck out all
seems to be well, but it is still there; and with a brightness that is no number it seems to be
noted, but it is not. -/
theorem calls_durable_lamp :
    let half := Binary64.ofRatio false 1 2
    let lamp := Mediator.lamp half
    let dark := Mediator.lamp .nan
    (unreliable.after [(Mediator.noon, .record lamp)]).Lists ⟨Mediator.noon, lamp⟩ ∧
    (((unreliable.after ((struckTwice half).take 2)).call Mediator.noon (.forget ⟨"lamp"⟩)).1.isOk ∧
      ¬ (unreliable.after (struckTwice half)).Omits ⟨"lamp"⟩) ∧
    ((unreliable.call Mediator.noon (.record dark)).1.isOk ∧
      ¬ (unreliable.after [(Mediator.noon, .record dark)]).Lists ⟨Mediator.noon, dark⟩) := by
  intro half lamp dark
  have opened : openOn Mediator.noon { fails := fun n => n = 1 } = .ok unreliable := rfl
  have moments : ∀ x, ∀ c ∈ struckTwice x, c.1.IsMoment := by
    intro x c hc
    simp only [struckTwice, List.mem_cons, List.not_mem_nil, or_false] at hc
    rcases hc with rfl | rfl | rfl
    all_goals exact Mediator.isMoment_noon
  have durable : ∀ x, DurableWhereFinite [x] → ∀ c ∈ struckTwice x,
      DurableWhereFinite c.2.doubles := by
    intro x hx c hc
    simp only [struckTwice, List.mem_cons, List.not_mem_nil, or_false] at hc
    rcases hc with rfl | rfl | rfl
    · exact hx
    · exact fun y hy => absurd hy List.not_mem_nil
    · exact fun y hy => absurd hy List.not_mem_nil
  have first : ∀ x, [(Mediator.noon, Call.record (Mediator.lamp x))] ⊆ struckTwice x := by
    intro x c hc
    rw [List.mem_singleton.mp hc]
    exact List.mem_cons_self
  have halfDurable : DurableWhereFinite [half] := by
    intro x hx _
    rw [List.mem_singleton.mp hx]
    decide +kernel
  have nanDurable : DurableWhereFinite [.nan] := by
    intro x hx hfinite
    rw [List.mem_singleton.mp hx] at hfinite
    cases hfinite
  refine ⟨?_, ⟨by decide +kernel, ?_⟩, by decide +kernel, ?_⟩
  · refine ((calls_durable opened (fun c h => moments half c (first half h))
      fun c h => durable half halfDurable c (first half h)).2.1 [] _ _ rfl rfl).mpr fun x hx => ?_
    rw [List.mem_singleton.mp (show x ∈ [half] from hx)]
    decide +kernel
  · intro homits
    refine (((calls_durable opened (moments half) (durable half halfDurable)).2.2
      ((struckTwice half).take 2) _ _ rfl (by decide +kernel)).mp homits).2 ?_
    refine ⟨(struckTwice half).take 1, Mediator.noon, [(Mediator.noon, .forget ⟨"lamp"⟩)], rfl,
      ⟨_, rfl, by decide +kernel⟩, by decide +kernel,
      Option.isNone_iff_eq_none.mp (by decide +kernel), fun c hc d hd => ?_⟩
    rw [List.mem_singleton.mp hc] at hd
    cases hd
  · intro hlists
    have finite := ((calls_durable opened (fun c h => moments .nan c (first .nan h))
      fun c h => durable .nan nanDurable c (first .nan h)).2.1 [] _ _ rfl rfl).mp hlists
    have contrary := finite .nan (List.mem_singleton.mpr rfl)
    cases contrary

end RegistrationLog

end Rendezvous
