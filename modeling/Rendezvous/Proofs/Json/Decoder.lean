import Rendezvous.Proofs.Json.Written
/-!
# Typed values that are written and read again

`Json.ReadsAs decoder depth j r` says that the decoder makes `r` of what is read of the written form
of `j`. Lists, members and structures are decoded part by part, so a typed value is read back if its
parts are.
-/

namespace Rendezvous.Json

variable {α : Type}

/-- Whether the decoder, at the given depth, makes `r` of the written form of `j`. -/
def ReadsAs (decoder : Decoder α) (depth : Nat) (j : Json) (r : Option α) : Prop :=
  ∃ v, Reads j v ∧ decoder depth v = r

theorem ReadsAs.decodeText? {decoder : Decoder α} {j : Json} {r : Option α}
    (h : ReadsAs decoder maxDepth j r) :
    Json.decodeText? decoder (String.ofList (pretty j)) = r := by
  obtain ⟨v, hreads, hdecodes⟩ := h
  unfold Json.decodeText?
  rw [hreads.ofText?]
  exact hdecodes

theorem readsAs_string (depth : Nat) (s : String) :
    ReadsAs asString depth (.string s) (some s) := ⟨_, reads_string s, rfl⟩

theorem asNatural_natural {bound n : Nat} (h : n < bound) (depth : Nat) :
    asNatural bound depth (natural n) = some n := by
  have hbounds : (0 : Int) ≤ n ∧ (n : Int) < bound := ⟨Int.natCast_nonneg n, Int.ofNat_lt.mpr h⟩
  simp only [natural, asNatural]
  rw [if_pos hbounds, Int.toNat_natCast]

theorem fitsWord_natCast {n : Nat} (h : n < UInt64.size) : FitsWord n := by
  have hword : n < 0x1_0000_0000_0000_0000 := h
  exact ⟨by omega, by omega⟩

theorem readsAs_natural {bound n : Nat} (h : n < bound) (hbound : bound ≤ UInt64.size)
    (depth : Nat) :
    ReadsAs (asNatural bound) depth (natural n) (some n) :=
  ⟨_, reads_integer (fitsWord_natCast (Nat.lt_of_lt_of_le h hbound)), asNatural_natural h depth⟩

/-- A decoder that goes on from another one. -/
theorem ReadsAs.bind {β : Type} {decoder : Decoder α} {depth : Nat} {j : Json} {r : Option α}
    (h : ReadsAs decoder depth j r) (f : α → Option β) :
    ReadsAs (fun depth j => (decoder depth j).bind f) depth j (r.bind f) := by
  obtain ⟨v, hreads, hdecodes⟩ := h
  refine ⟨v, hreads, ?_⟩
  simp only [hdecodes]

theorem ReadsAs.map {β : Type} {decoder : Decoder α} {depth : Nat} {j : Json} {r : Option α}
    (h : ReadsAs decoder depth j r) (f : α → β) :
    ReadsAs (fun depth j => (decoder depth j).map f) depth j (r.map f) := by
  obtain ⟨v, hreads, hdecodes⟩ := h
  refine ⟨v, hreads, ?_⟩
  simp only [hdecodes]

theorem ReadsAs.list {β : Type} {decoder : Decoder α} {depth : Nat} {encode : β → Json}
    {r : β → Option α} {xs : List β} (h : ∀ x ∈ xs, ReadsAs decoder depth (encode x) (r x)) :
    ReadsAs (asList decoder) (depth + 1) (.array (xs.map encode)) (xs.mapM r) := by
  have hitems : ∃ vs, List.Forall₂ Reads (xs.map encode) vs ∧
      vs.mapM (decoder depth) = xs.mapM r := by
    induction xs with
    | nil => exact ⟨[], .nil, rfl⟩
    | cons x xs ih =>
      obtain ⟨v, hreads, hdecodes⟩ := h x (List.mem_cons_self ..)
      obtain ⟨vs, hall, hmapM⟩ := ih fun x hx => h x (List.mem_cons_of_mem _ hx)
      refine ⟨v :: vs, .cons hreads hall, ?_⟩
      rw [List.mapM_cons, List.mapM_cons, hdecodes, hmapM]
  obtain ⟨vs, hall, hmapM⟩ := hitems
  exact ⟨.array vs, .array hall, hmapM⟩

theorem ReadsAs.members {β : Type} {decoder : Decoder α} {depth : Nat} {encode : β → Json}
    {r : β → Option α} {es : List (String × β)}
    (h : ∀ e ∈ es, ReadsAs decoder depth (encode e.2) (r e.2)) :
    ReadsAs (asMembers decoder) (depth + 1) (.object (es.map fun e => (e.1, encode e.2)))
      (es.mapM fun e => (r e.2).map (e.1, ·)) := by
  have hmembers : ∃ vs, List.Forall₂ ReadsMember (es.map fun e => (e.1, encode e.2)) vs ∧
      (vs.mapM fun m => (decoder depth m.2).map (m.1, ·)) =
        es.mapM fun e => (r e.2).map (e.1, ·) := by
    induction es with
    | nil => exact ⟨[], .nil, rfl⟩
    | cons e es ih =>
      obtain ⟨v, hreads, hdecodes⟩ := h e (List.mem_cons_self ..)
      obtain ⟨vs, hall, hmapM⟩ := ih fun e he => h e (List.mem_cons_of_mem _ he)
      refine ⟨(e.1, v) :: vs, .cons ⟨rfl, hreads⟩ hall, ?_⟩
      rw [List.mapM_cons, List.mapM_cons, hdecodes, hmapM]
  obtain ⟨vs, hall, hmapM⟩ := hmembers
  exact ⟨.object vs, .object hall, hmapM⟩

/-! ## Structures -/

/-- An object with exactly the fields of a structure. -/
theorem record?_object (names : List String) (members : List (String × Json))
    (hnames : members.map Prod.fst = names) (hnodup : names.Nodup) (depth : Nat) :
    record? names (depth + 1) (.object members) = some ⟨depth, false, members⟩ := by
  have hknown : (members.filter fun m => names.contains m.1) = members := by
    rw [List.filter_eq_self]
    intro m hm
    rw [← hnames]
    exact List.contains_iff_mem.mpr (List.mem_map_of_mem hm)
  unfold record?
  simp only [hknown]
  rw [hnames, if_pos hnodup]

namespace Record

theorem required_of_find? {r : Record} {name : String} {v : Json} {decoder : Decoder α}
    (h : r.find? name = some v) : r.required name decoder = decoder r.depth v := by
  unfold required
  rw [h]
  rfl

theorem required_string {r : Record} {name s : String} (h : r.find? name = some (.string s)) :
    r.required name asString = some s :=
  required_of_find? h

theorem nullable_of_find? {r : Record} {name : String} {v : Json} {decoder : Decoder α}
    (h : r.find? name = some v) : r.nullable name decoder = asOption decoder r.depth v := by
  unfold nullable
  rw [h]

end Record

end Rendezvous.Json
