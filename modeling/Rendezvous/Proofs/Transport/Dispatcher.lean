import Rendezvous.Transport.Dispatcher
/-!
# Waiting for a permit

Requests take off in the order in which they were given, so a request that waits is described by how
many wait before it (`Dispatcher.Waits`). What takes off lands within the time that it is given, and
what has landed is among the completions.
-/

namespace Rendezvous

/-- Nothing is waited for longer than it is given. -/
theorem Reception.within_le (r : Reception) (wait : Duration) : (r.within wait).1 ≤ wait := by
  unfold within
  cases r.delay with
  | none => exact Nat.le_refl _
  | some d =>
    simp only
    split
    · assumption
    · exact Nat.le_refl _

namespace Dispatcher

/-- Whether a request waits behind so many others. -/
def Waits (d : Dispatcher) (errand : Errand) (ahead : Nat) : Prop :=
  ∃ before after, d.waiting = before ++ errand :: after ∧ before.length = ahead

theorem Waits.mem {d : Dispatcher} {errand : Errand} {ahead : Nat} (h : d.Waits errand ahead) :
    errand ∈ d.waiting := by
  obtain ⟨before, after, heq, -⟩ := h
  rw [heq]
  exact List.mem_append_right _ (List.mem_cons_self ..)

theorem exists_waits {d : Dispatcher} {errand : Errand} (h : errand ∈ d.waiting) :
    ∃ ahead, d.Waits errand ahead := by
  obtain ⟨before, after, heq⟩ := List.append_of_mem h
  exact ⟨before.length, before, after, heq, rfl⟩

/-- Others may come behind it. -/
theorem Waits.append {d d' : Dispatcher} {errand : Errand} {ahead : Nat} (h : d.Waits errand ahead)
    {errands : List Errand} (heq : d'.waiting = d.waiting ++ errands) : d'.Waits errand ahead := by
  obtain ⟨before, after, hwaiting, hlength⟩ := h
  refine ⟨before, after ++ errands, ?_, hlength⟩
  rw [heq, hwaiting, List.append_assoc, List.cons_append]

/-- The number of requests that can take off. -/
def free (d : Dispatcher) : Nat := d.settings.permits - d.flights.length

theorem launch_snd (network : Network) (now : Instant) (d : Dispatcher) :
    (d.launch network now).2 = { d with
      waiting := d.waiting.drop d.free
      flights := d.flights ++ (d.waiting.take d.free).map (takeOff network now) } := rfl

/-- A launch lets a request take off or brings it forward. -/
theorem Waits.launch {d : Dispatcher} {errand : Errand} {ahead : Nat} (h : d.Waits errand ahead)
    (network : Network) (now : Instant) :
    (d.free ≤ ahead ∧ (d.launch network now).2.Waits errand (ahead - d.free)) ∨
      takeOff network now errand ∈ (d.launch network now).2.flights := by
  obtain ⟨before, after, hwaiting, rfl⟩ := h
  rw [launch_snd, hwaiting]
  by_cases hfree : d.free ≤ before.length
  · refine .inl ⟨hfree, before.drop d.free, after, ?_, List.length_drop⟩
    exact List.drop_append_of_le_length hfree
  · refine .inr (List.mem_append_right _ (List.mem_map_of_mem ?_))
    obtain ⟨n, hn⟩ : ∃ n, d.free - before.length = n + 1 := ⟨d.free - before.length - 1, by omega⟩
    rw [List.take_append, hn, List.take_succ_cons]
    exact List.mem_append_right _ (List.mem_cons_self ..)

theorem mem_waiting_launch {d : Dispatcher} {network : Network} {now : Instant} {errand : Errand}
    (h : errand ∈ (d.launch network now).2.waiting) : errand ∈ d.waiting :=
  List.mem_of_mem_drop h

theorem mem_flights_launch {d : Dispatcher} {network : Network} {now : Instant} {f : Flight}
    (h : f ∈ (d.launch network now).2.flights) :
    f ∈ d.flights ∨ ∃ errand ∈ d.waiting, f = takeOff network now errand := by
  rcases List.mem_append.mp h with h | h
  · exact .inl h
  · obtain ⟨errand, herrand, rfl⟩ := List.mem_map.mp h
    exact .inr ⟨errand, List.mem_of_mem_take herrand, rfl⟩

theorem takeOff_landsAt (network : Network) (now : Instant) (errand : Errand) :
    now ≤ (takeOff network now errand).landsAt ∧
      (takeOff network now errand).landsAt ≤ now + errand.wait := by
  have hwithin := Reception.within_le (network errand.endpoint errand.message) errand.wait
  exact ⟨Nat.le_add_right .., Nat.add_le_add_left hwithin _⟩

/-- What is under way stays so or lands. -/
theorem mem_land {d : Dispatcher} {f : Flight} (h : f ∈ d.flights) (now : Instant) :
    f ∈ (d.land now).flights ∨
      (f.landsAt ≤ now ∧ ⟨f.errand.key, f.result⟩ ∈ (d.land now).completed) := by
  by_cases hlands : f.landsAt ≤ now
  · refine .inr ⟨hlands, List.mem_append_right _ ?_⟩
    refine List.mem_map_of_mem (List.mem_mergeSort.mpr ?_)
    exact List.mem_filter.mpr ⟨h, decide_eq_true hlands⟩
  · exact .inl (List.mem_filter.mpr ⟨h, decide_eq_true hlands⟩)

theorem of_receive {d d' : Dispatcher} {c : Completion} (h : d.receive = some (c, d')) :
    ∃ rest, d.completed = c :: rest ∧ d' = { d with completed := rest } := by
  unfold receive at h
  cases hcompleted : d.completed with
  | nil =>
    rw [hcompleted] at h
    cases h
  | cons c' rest =>
    rw [hcompleted] at h
    cases h
    exact ⟨rest, rfl, rfl⟩

end Dispatcher

end Rendezvous
