import Mathlib.Data.List.Induction
import Rendezvous.Proofs.Service.Cursor
/-!
# Cursors do not disturb one another

Any calls of a table of cursors, made by whoever likes to, in any order. What is behind an open
cursor is what has not been given yet of the result that it was opened for, and is never empty
(`CursorTable.cursors_isolated`). A call is about one cursor and leaves the others as they are, but
for one: a new cursor for which there is no room makes the one go that was opened longest ago.

Of what a call does only two kinds matter: it opens a cursor (`CursorTable.call_of_exceeds`), or
it gives some of what is behind a cursor and keeps the rest of it or nothing
(`CursorTable.Serves`). Both keep the account of what has been given (`CursorTable.Accounts`).
-/

namespace Rendezvous

namespace CursorTable

/-! ## Calls and what they give -/

/-- A call of the table. -/
inductive Call
  | openPage (results : List Summary) (size : Nat)
  | next (cursor : String)
  | close (cursor : String)

/-- The result for which a call opens a cursor, and the page size. -/
def Call.opening? : Call → Option (List Summary × Nat)
  | openPage results size =>
    if size = 0 ∨ results.length ≤ size then none else some (results, size)
  | next _ => none
  | close _ => none

/-- The results for which calls open cursors, in the order in which they do. -/
def openings (calls : List Call) : List (List Summary × Nat) := calls.filterMap Call.opening?

/-- The table after a call. -/
def call (t : CursorTable) : Call → CursorTable
  | .openPage results size => (t.openPage results size).2
  | .next cursor =>
    match t.next cursor with
    | .ok r => r.2
    | .error _ => t
  | .close cursor => (t.close cursor).2

/-- The table after calls. -/
def after (t : CursorTable) (calls : List Call) : CursorTable := calls.foldl call t

/-- The components that a call gives together with a cursor or from behind it. -/
def gives (t : CursorTable) (cursor : String) : Call → List Summary
  | .openPage results size =>
    let page := (t.openPage results size).1
    if page.cursor = some cursor then page.components else []
  | .next cursor' =>
    if cursor' = cursor then
      match t.next cursor with
      | .ok r => r.1.components
      | .error _ => []
    else []
  | .close _ => []

/-- The components that calls give together with a cursor and from behind it, in their order. -/
def delivered (t : CursorTable) (cursor : String) : List Call → List Summary
  | [] => []
  | x :: rest => t.gives cursor x ++ (t.call x).delivered cursor rest

theorem openings_concat (calls : List Call) (x : Call) :
    openings (calls ++ [x]) = openings calls ++ x.opening?.toList := by
  rw [openings, List.filterMap_append]
  cases h : x.opening? <;> simp [openings, h]

theorem after_concat (t : CursorTable) (calls : List Call) (x : Call) :
    t.after (calls ++ [x]) = (t.after calls).call x :=
  List.foldl_append ..

theorem delivered_concat (t : CursorTable) (cursor : String) (calls : List Call) (x : Call) :
    t.delivered cursor (calls ++ [x]) =
      t.delivered cursor calls ++ (t.after calls).gives cursor x := by
  induction calls generalizing t with
  | nil => exact List.append_nil _
  | cons y rest ih =>
    rw [List.cons_append, delivered, ih, delivered, List.append_assoc]
    rfl

/-! ## Calls that open no cursor -/

/-- Whether a call leaves these cursors. It gives what is in front behind one of them and keeps the
rest of it or nothing, or gives nothing and keeps all of it or nothing. -/
structure Serves (t : CursorTable) (cursor : String) (x : Call) (cursors : Dict String Pending) :
    Prop where
  opening : x.opening? = none
  call : t.call x = { t with cursors }
  size : cursors.size ≤ t.size
  others : ∀ other, other ≠ cursor →
    cursors.get? other = t.cursors.get? other ∧ t.gives other x = []
  own : (t.gives cursor x = [] ∧
      ∀ p, cursors.get? cursor = some p → t.cursors.get? cursor = some p) ∨
    ∃ p, t.cursors.get? cursor = some p ∧ t.gives cursor x = p.rest.take p.pageSize ∧
      ∀ p', cursors.get? cursor = some p' →
        p' = { p with rest := p.rest.drop p.pageSize } ∧ p'.rest ≠ []

theorem openPage_of_fits (t : CursorTable) {results : List Summary} {size : Nat}
    (fits : size = 0 ∨ results.length ≤ size) :
    t.openPage results size = (.whole results, t) := by
  rw [openPage, if_pos fits]

/-- A result that is given as a whole concerns no cursor. -/
theorem serves_openPage (t : CursorTable) {results : List Summary} {size : Nat}
    (fits : size = 0 ∨ results.length ≤ size) (cursor : String) :
    t.Serves cursor (.openPage results size) t.cursors := by
  have hgives : ∀ other, t.gives other (.openPage results size) = [] := by
    intro other
    rw [gives, openPage_of_fits t fits]
    rfl
  exact ⟨if_pos fits, congrArg Prod.snd (openPage_of_fits t fits), Nat.le_refl _,
    fun other _ => ⟨rfl, hgives other⟩, .inl ⟨hgives cursor, fun _ h => h⟩⟩

theorem serves_close (t : CursorTable) (cursor : String) :
    t.Serves cursor (.close cursor) (t.cursors.erase cursor) where
  opening := rfl
  call := rfl
  size := Dict.size_erase_le t.cursors cursor
  others _ hother := ⟨t.cursors.get?_erase_of_ne hother, rfl⟩
  own := .inl ⟨rfl, fun p h => by cases (t.cursors.get?_erase_self cursor).symm.trans h⟩

theorem serves_next (t : CursorTable) (cursor : String) :
    ∃ cursors, t.Serves cursor (.next cursor) cursors := by
  have hothers : ∀ other, other ≠ cursor → t.gives other (.next cursor) = [] :=
    fun other hother => if_neg hother.symm
  cases hget : t.cursors.get? cursor with
  | none =>
    have hnext := next_of_none hget
    refine ⟨t.cursors, rfl, ?_, Nat.le_refl _, fun other hother => ⟨rfl, hothers other hother⟩,
      .inl ⟨?_, fun _ h => h⟩⟩
    · rw [call, hnext]
    · rw [gives, if_pos rfl, hnext]
  | some p =>
    rcases Nat.lt_or_ge p.pageSize p.rest.length with exceeds | fits
    · have hnext := next_of_more hget exceeds
      refine ⟨t.cursors.insert cursor { p with rest := p.rest.drop p.pageSize }, rfl, ?_,
        Nat.le_of_eq (Dict.size_insert_of_get? hget _),
        fun other hother => ⟨?_, hothers other hother⟩, .inr ⟨p, hget, ?_, fun p' h => ?_⟩⟩
      · rw [call, hnext]
      · rw [Dict.get?_insert, if_neg hother]
      · rw [gives, if_pos rfl, hnext]
      · rw [Dict.get?_insert, if_pos rfl] at h
        cases h
        refine ⟨rfl, ?_⟩
        rw [Ne, List.drop_eq_nil_iff]
        omega
    · have hnext := next_of_last hget fits
      refine ⟨t.cursors.erase cursor, rfl, ?_, Dict.size_erase_le t.cursors cursor,
        fun other hother => ⟨t.cursors.get?_erase_of_ne hother, hothers other hother⟩,
        .inr ⟨p, hget, ?_, fun p' h => ?_⟩⟩
      · rw [call, hnext]
      · rw [gives, if_pos rfl, hnext]
        exact (List.take_of_length_le fits).symm
      · cases (t.cursors.get?_erase_self cursor).symm.trans h

section Serves

variable {t : CursorTable} {cursor : String} {x : Call} {cursors : Dict String Pending}

/-- Every cursor that is open after such a call was open before it. -/
theorem Serves.kept (serves : t.Serves cursor x cursors) {other : String} {p : Pending}
    (h : cursors.get? other = some p) :
    ∃ p', t.cursors.get? other = some p' ∧ p'.serial = p.serial := by
  by_cases hother : other = cursor
  · subst hother
    rcases serves.own with ⟨-, hkept⟩ | ⟨p', hp', -, hkept⟩
    · exact ⟨p, hkept p h, rfl⟩
    · exact ⟨p', hp', by rw [(hkept p h).1]⟩
  · exact ⟨p, (serves.others other hother).1 ▸ h, rfl⟩

theorem Serves.sound (serves : t.Serves cursor x cursors) (sound : t.Sound) :
    (t.call x).Sound := by
  rw [serves.call]
  refine ⟨fun other p h => ?_, fun other p h => ?_⟩
  · obtain ⟨p', hp', hserial⟩ := serves.kept h
    rw [← hserial]
    exact sound.opened other p' hp'
  · obtain ⟨p', hp', hserial⟩ := serves.kept h
    rw [← hserial]
    exact sound.named other p' hp'

end Serves

/-! ## Calls that open a cursor -/

/-- Going through a list and keeping the least so far keeps one. -/
theorem exists_foldl_oldest
    {keep : Option (String × Pending) → String × Pending → Option (String × Pending)}
    (step : ∀ least e,
      keep (some least) e = if e.2.serial < least.2.serial then some e else some least)
    (entries : List (String × Pending)) (least : String × Pending) :
    ∃ e, entries.foldl keep (some least) = some e := by
  induction entries generalizing least with
  | nil => exact ⟨least, rfl⟩
  | cons e rest ih =>
    rw [List.foldl_cons, step]
    split
    · exact ih e
    · exact ih least

/-- One of the open cursors was opened longest ago. -/
theorem exists_oldest {t : CursorTable} (h : 0 < t.size) : ∃ e, t.oldest? = some e := by
  unfold oldest?
  cases hentries : t.cursors.entries with
  | nil =>
    rw [size, Dict.size, hentries] at h
    cases h
  | cons e rest => exact exists_foldl_oldest (fun _ _ => rfl) rest e

theorem makeRoomWithin_of_room {t : CursorTable} (room : t.size < t.limit) (count : Nat) :
    t.makeRoomWithin count = t := by
  cases count with
  | zero => rfl
  | succ count => rw [makeRoomWithin, if_pos room]

/-- Whether cursors are those of a table with room made for one more: all of them if there is room,
or else all but the oldest. -/
inductive Room (t : CursorTable) : Dict String Pending → Prop
  | spare (room : t.size < t.limit) : Room t t.cursors
  | dropped {e : String × Pending} (full : t.size = t.limit) (oldest : t.oldest? = some e) :
      Room t (t.cursors.erase e.1)

theorem Room.kept {t : CursorTable} {cursors : Dict String Pending} (room : t.Room cursors)
    {cursor : String} {p : Pending} (h : cursors.get? cursor = some p) :
    t.cursors.get? cursor = some p := by
  cases room with
  | spare => exact h
  | dropped =>
    rw [Dict.get?_erase] at h
    split at h
    · cases h
    · exact h

theorem Room.size_lt {t : CursorTable} {cursors : Dict String Pending} (room : t.Room cursors) :
    cursors.size < t.limit := by
  cases room with
  | spare room => exact room
  | dropped full oldest =>
    obtain ⟨hmem, -⟩ := oldest?_spec oldest
    rw [← full]
    exact Dict.size_erase_lt (Dict.mem_entries.mp hmem)

/-- A table that is full makes room by dropping its oldest cursor and no other. -/
theorem room_makeRoom {t : CursorTable} (positive : 0 < t.limit) (bounded : t.size ≤ t.limit) :
    ∃ cursors, t.Room cursors ∧ t.makeRoom = { t with cursors } := by
  rcases Nat.lt_or_eq_of_le bounded with room | full
  · exact ⟨t.cursors, .spare room, makeRoomWithin_of_room room t.size⟩
  · obtain ⟨e, holdest⟩ := exists_oldest (t := t) (by omega)
    have room : t.Room (t.cursors.erase e.1) := .dropped full holdest
    refine ⟨_, room, ?_⟩
    unfold makeRoom
    cases hsize : t.size with
    | zero => omega
    | succ count =>
      rw [makeRoomWithin, if_neg (by omega), holdest]
      exact makeRoomWithin_of_room (t := { t with cursors := t.cursors.erase e.1 }) room.size_lt
        count

/-- What exceeds a page leaves its rest behind a new cursor, and nothing is given under another
name. -/
theorem call_of_exceeds {t : CursorTable} (positive : 0 < t.limit) (bounded : t.size ≤ t.limit)
    {results : List Summary} {size : Nat} (exceeds : ¬ (size = 0 ∨ results.length ≤ size)) :
    ∃ cursors, t.Room cursors ∧
      t.call (.openPage results size) = { t with
        opened := t.opened + 1
        cursors := cursors.insert (t.names t.opened) ⟨results.drop size, size, t.opened⟩ } ∧
      ∀ cursor, t.gives cursor (.openPage results size) =
        if t.names t.opened = cursor then results.take size else [] := by
  obtain ⟨cursors, room, hroom⟩ := room_makeRoom positive bounded
  refine ⟨cursors, room, ?_, fun cursor => ?_⟩
  · rw [call, openPage, if_neg exceeds, hroom]
  · rw [gives, openPage, if_neg exceeds, hroom]
    simp only [Option.some.injEq]

/-! ## The account of what has been given -/

/-- Whether the first names of a supply are different. -/
def Apart (names : Nat → String) (count : Nat) : Prop :=
  ∀ i < count, ∀ j < count, names i = names j → i = j

instance (names : Nat → String) (count : Nat) : Decidable (Apart names count) :=
  inferInstanceAs (Decidable (∀ i < count, ∀ j < count, names i = names j → i = j))

theorem Apart.anti {names : Nat → String} {count count' : Nat} (apart : Apart names count)
    (h : count' ≤ count) : Apart names count' :=
  fun i hi j hj => apart i (Nat.lt_of_lt_of_le hi h) j (Nat.lt_of_lt_of_le hj h)

theorem Apart.ne {names : Nat → String} {count : Nat} (apart : Apart names count) {i j : Nat}
    (h : i < j) (hj : j < count) : names i ≠ names j := by
  intro hsame
  have := apart i (Nat.lt_trans h hj) j hj hsame
  omega

/-- Whether the cursors after calls hold what the calls have not given. -/
structure Accounts (start : CursorTable) (calls : List Call) : Prop where
  names : (start.after calls).names = start.names
  limit : (start.after calls).limit = start.limit
  sound : (start.after calls).Sound
  bounded : (start.after calls).size ≤ start.limit
  opened : (start.after calls).opened = (openings calls).length
  /-- What has been given of a result and what is behind its cursor make the result. -/
  held : ∀ cursor p, (start.after calls).cursors.get? cursor = some p →
    p.rest ≠ [] ∧ ∃ results, (openings calls)[p.serial]? = some (results, p.pageSize) ∧
      start.delivered cursor calls ++ p.rest = results
  /-- Nothing else is given, also when the cursor is not open any more. -/
  once : ∀ k results size, (openings calls)[k]? = some (results, size) →
    start.delivered (start.names k) calls <+: results
  /-- From behind other cursors nothing is given. -/
  unknown : ∀ cursor, (∀ k < (openings calls).length, start.names k ≠ cursor) →
    start.delivered cursor calls = []

theorem accounts_new (limit : Nat) (names : Nat → String) : (new limit names).Accounts [] where
  names := rfl
  limit := rfl
  sound := sound_new limit names
  bounded := Nat.zero_le _
  opened := rfl
  held _ _ h := by cases h
  once _ _ _ h := by cases h
  unknown _ _ := rfl

/-- What is behind a cursor is kept track of when some of it is given. -/
theorem Accounts.serve {start : CursorTable} {calls : List Call} (accounts : start.Accounts calls)
    (apart : Apart start.names (openings calls).length) {cursor : String} {x : Call}
    {cursors : Dict String Pending} (serves : (start.after calls).Serves cursor x cursors) :
    start.Accounts (calls ++ [x]) := by
  have hopenings : openings (calls ++ [x]) = openings calls := by
    rw [openings_concat, serves.opening]
    exact List.append_nil _
  have hgives : ∀ other, other ≠ cursor →
      start.delivered other (calls ++ [x]) = start.delivered other calls := by
    intro other hother
    rw [delivered_concat, (serves.others other hother).2, List.append_nil]
  -- A cursor that is open has a name that was given when it was opened.
  have named : ∀ p, (start.after calls).cursors.get? cursor = some p →
      cursor = start.names p.serial ∧ p.serial < (openings calls).length := by
    intro p hp
    rw [← accounts.names, ← accounts.opened]
    exact ⟨accounts.sound.named cursor p hp, accounts.sound.opened cursor p hp⟩
  refine ⟨?_, ?_, ?_, ?_, ?_, fun other p hp => ?_, fun k results size hk => ?_,
    fun other hother => ?_⟩
  · rw [after_concat, serves.call]
    exact accounts.names
  · rw [after_concat, serves.call]
    exact accounts.limit
  · rw [after_concat]
    exact serves.sound accounts.sound
  · rw [after_concat, serves.call]
    exact Nat.le_trans serves.size accounts.bounded
  · rw [after_concat, serves.call, hopenings]
    exact accounts.opened
  · rw [after_concat, serves.call] at hp
    rw [hopenings]
    by_cases hother : other = cursor
    · subst hother
      rw [delivered_concat]
      rcases serves.own with ⟨hgiven, hkept⟩ | ⟨p', hp', hgiven, hkept⟩
      · rw [hgiven, List.append_nil]
        exact accounts.held other p (hkept p hp)
      · obtain ⟨rfl, filled⟩ := hkept p hp
        obtain ⟨-, results, hopening, hresults⟩ := accounts.held other p' hp'
        refine ⟨filled, results, hopening, ?_⟩
        rw [hgiven, List.append_assoc, List.take_append_drop]
        exact hresults
    · rw [hgives other hother]
      exact accounts.held other p ((serves.others other hother).1 ▸ hp)
  · rw [hopenings] at hk
    by_cases hname : start.names k = cursor
    · rw [delivered_concat, hname]
      rcases serves.own with ⟨hgiven, -⟩ | ⟨p, hp, hgiven, -⟩
      · rw [hgiven, List.append_nil, ← hname]
        exact accounts.once k results size hk
      · obtain ⟨hserial, hlt⟩ := named p hp
        obtain ⟨hklt, -⟩ := List.getElem?_eq_some_iff.mp hk
        obtain rfl : k = p.serial := apart k hklt p.serial hlt (hname.trans hserial)
        obtain ⟨-, results', hopening, hresults⟩ := accounts.held cursor p hp
        rw [hk] at hopening
        cases hopening
        rw [hgiven, ← hresults, List.prefix_append_right_inj]
        exact List.take_prefix ..
    · rw [hgives _ hname]
      exact accounts.once k results size hk
  · rw [hopenings] at hother
    by_cases hname : other = cursor
    · subst hname
      rw [delivered_concat, accounts.unknown other hother]
      rcases serves.own with ⟨hgiven, -⟩ | ⟨p, hp, -⟩
      · exact hgiven
      · obtain ⟨hserial, hlt⟩ := named p hp
        exact absurd hserial.symm (hother p.serial hlt)
    · rw [hgives other hname]
      exact accounts.unknown other hother

section Store

variable {start : CursorTable} {calls : List Call}

/-- What exceeds a page after calls leaves its rest behind a cursor of the next name. -/
theorem Accounts.call_of_exceeds (accounts : start.Accounts calls) (positive : 0 < start.limit)
    {results : List Summary} {size : Nat} (exceeds : ¬ (size = 0 ∨ results.length ≤ size)) :
    ∃ cursors, (start.after calls).Room cursors ∧
      (start.after calls).call (.openPage results size) = { start.after calls with
        opened := (openings calls).length + 1
        cursors := cursors.insert (start.names (openings calls).length)
          ⟨results.drop size, size, (openings calls).length⟩ } ∧
      ∀ cursor, start.delivered cursor (calls ++ [.openPage results size]) =
        start.delivered cursor calls ++
          if start.names (openings calls).length = cursor then results.take size else [] := by
  have hlimit : (start.after calls).limit = start.limit := accounts.limit
  obtain ⟨cursors, room, hcall, hgiven⟩ := CursorTable.call_of_exceeds (t := start.after calls)
    (by rw [hlimit]; exact positive) (by rw [hlimit]; exact accounts.bounded) exceeds
  have hname : (start.after calls).names (start.after calls).opened =
      start.names (openings calls).length := by
    rw [accounts.opened, accounts.names]
  rw [hname] at hcall hgiven
  rw [accounts.opened] at hcall
  refine ⟨cursors, room, hcall, fun cursor => ?_⟩
  rw [delivered_concat, hgiven]

/-- A new cursor is kept track of. -/
theorem Accounts.store (accounts : start.Accounts calls) (positive : 0 < start.limit)
    (apart : Apart start.names ((openings calls).length + 1)) {results : List Summary} {size : Nat}
    (exceeds : ¬ (size = 0 ∨ results.length ≤ size)) :
    start.Accounts (calls ++ [.openPage results size]) := by
  obtain ⟨cursors, room, hcall, hgives⟩ := accounts.call_of_exceeds positive exceeds
  have hopenings : openings (calls ++ [.openPage results size]) =
      openings calls ++ [(results, size)] := by
    rw [openings_concat, Call.opening?, if_neg exceeds]
    rfl
  -- Nothing has been given yet under the new name, and the call gives nothing under the others.
  have own : start.delivered (start.names (openings calls).length)
      (calls ++ [.openPage results size]) = results.take size := by
    rw [hgives, if_pos rfl, accounts.unknown _ fun k hk => apart.ne hk (Nat.lt_succ_self _),
      List.nil_append]
  have others : ∀ k < (openings calls).length,
      start.delivered (start.names k) (calls ++ [.openPage results size]) =
        start.delivered (start.names k) calls := by
    intro k hk
    rw [hgives, if_neg (apart.ne hk (Nat.lt_succ_self _)).symm, List.append_nil]
  refine ⟨?_, ?_, ?_, ?_, ?_, fun cursor p hp => ?_, fun k results' size' hk => ?_,
    fun cursor hcursor => ?_⟩
  · rw [after_concat, hcall]
    exact accounts.names
  · rw [after_concat, hcall]
    exact accounts.limit
  · rw [after_concat]
    exact accounts.sound.openPage results size
  · rw [after_concat, hcall, ← accounts.limit]
    exact Nat.le_trans (Dict.size_insert_le ..) room.size_lt
  · rw [after_concat, hcall, hopenings, List.length_append]
    rfl
  · rw [after_concat, hcall, Dict.get?_insert] at hp
    split at hp
    · next hnew =>
      cases hp
      subst hnew
      refine ⟨?_, results, ?_, ?_⟩
      · rw [Ne, List.drop_eq_nil_iff]
        omega
      · rw [hopenings]
        exact List.getElem?_concat_length
      · rw [own, List.take_append_drop]
    · have before := room.kept hp
      have hserial : p.serial < (openings calls).length :=
        accounts.opened ▸ accounts.sound.opened cursor p before
      have hcursor : cursor = start.names p.serial :=
        (accounts.sound.named cursor p before).trans (congrFun accounts.names _)
      obtain ⟨filled, results', hopening, hresults⟩ := accounts.held cursor p before
      refine ⟨filled, results', ?_, ?_⟩
      · rw [hopenings, List.getElem?_append_left hserial]
        exact hopening
      · rw [hcursor, others p.serial hserial, ← hcursor]
        exact hresults
  · rw [hopenings] at hk
    rcases Nat.lt_or_ge k (openings calls).length with hlt | hge
    · rw [List.getElem?_append_left hlt] at hk
      rw [others k hlt]
      exact accounts.once k results' size' hk
    · obtain ⟨hklt, hkeq⟩ := List.getElem?_eq_some_iff.mp hk
      rw [List.length_append, List.length_singleton] at hklt
      obtain rfl : k = (openings calls).length := by omega
      rw [List.getElem_concat_length rfl] at hkeq
      cases hkeq
      rw [own]
      exact List.take_prefix ..
  · rw [hopenings, List.length_append, List.length_singleton] at hcursor
    rw [hgives, if_neg (hcursor (openings calls).length (Nat.lt_succ_self _)), List.append_nil]
    exact accounts.unknown cursor fun k hk => hcursor k (Nat.lt_succ_of_lt hk)

end Store

/-- Whatever is called, the account is kept. -/
theorem accounts_after (limit : Nat) {names : Nat → String} {calls : List Call}
    (apart : Apart names (openings calls).length) : (new limit names).Accounts calls := by
  induction calls using List.reverseRecOn with
  | nil => exact accounts_new limit names
  | append_singleton calls x ih =>
    rw [openings_concat, List.length_append] at apart
    have before : (new limit names).Accounts calls := ih (apart.anti (Nat.le_add_right ..))
    have apartBefore : Apart names (openings calls).length := apart.anti (Nat.le_add_right ..)
    cases x with
    | openPage results size =>
      by_cases fits : size = 0 ∨ results.length ≤ size
      · exact before.serve apartBefore (serves_openPage _ fits "")
      · rw [Call.opening?, if_neg fits] at apart
        exact before.store (Nat.le_max_left 1 limit) apart fits
    | next cursor =>
      obtain ⟨cursors, serves⟩ := serves_next ((new limit names).after calls) cursor
      exact before.serve apartBefore serves
    | close cursor => exact before.serve apartBefore (serves_close _ cursor)

/-! ## What becomes of the other cursors -/

/-- Whether a cursor is open and all that were opened before it are not any more. -/
def Eldest (t : CursorTable) (k : Nat) : Prop :=
  (t.cursors.get? (t.names k)).isSome ∧ ∀ j < k, t.cursors.get? (t.names j) = none

/-- The cursor that goes for a new one is the one that was opened longest ago. -/
theorem Sound.eldest {t : CursorTable} (sound : t.Sound) (apart : Apart t.names t.opened)
    {e : String × Pending} (h : t.oldest? = some e) :
    ∃ k < t.opened, e.1 = t.names k ∧ t.Eldest k := by
  obtain ⟨hmem, hleast⟩ := oldest?_spec h
  have hentry : t.cursors.get? e.1 = some e.2 := Dict.mem_entries.mp hmem
  have hopened : e.2.serial < t.opened := sound.opened e.1 e.2 hentry
  have hname : e.1 = t.names e.2.serial := sound.named e.1 e.2 hentry
  refine ⟨e.2.serial, hopened, hname, Option.isSome_iff_exists.mpr ⟨e.2, hname ▸ hentry⟩,
    fun j hj => ?_⟩
  cases hearlier : t.cursors.get? (t.names j) with
  | none => rfl
  | some p =>
    have hserial : p.serial < t.opened := sound.opened _ p hearlier
    have hsame : j = p.serial := apart j (by omega) p.serial hserial (sound.named _ p hearlier)
    have hle : e.2.serial ≤ p.serial := hleast _ (Dict.mem_entries.mpr hearlier)
    omega

/-- Whether a table is the same behind all cursors but some. -/
def SameBut (t t' : CursorTable) (cursors : List String) : Prop :=
  ∀ cursor, cursor ∉ cursors → t'.cursors.get? cursor = t.cursors.get? cursor

/-- Whether a call has left alone all cursors that it may not touch. Fetching and closing are about
one cursor. Opening one makes another one go only if there is no room, and then the one that was
opened longest ago. -/
def Confined (t t' : CursorTable) : Call → Prop
  | .openPage results size =>
    if size = 0 ∨ results.length ≤ size then t' = t
    else
      let cursor := t.names t.opened
      t.cursors.get? cursor = none ∧
      t'.cursors.get? cursor = some ⟨results.drop size, size, t.opened⟩ ∧
      if t.size < t.limit then t.SameBut t' [cursor]
      else ∃ k, t.Eldest k ∧ t'.cursors.get? (t.names k) = none ∧ t.SameBut t' [cursor, t.names k]
  | .next cursor => t.SameBut t' [cursor]
  | .close cursor => t'.cursors.get? cursor = none ∧ t.SameBut t' [cursor]

theorem Serves.sameBut {t : CursorTable} {cursor : String} {x : Call}
    {cursors : Dict String Pending} (serves : t.Serves cursor x cursors) :
    t.SameBut (t.call x) [cursor] := by
  intro other hother
  rw [serves.call]
  exact (serves.others other fun h => hother (List.mem_singleton.mpr h)).1

theorem confined_call {t : CursorTable} (sound : t.Sound) (positive : 0 < t.limit)
    (bounded : t.size ≤ t.limit) {x : Call}
    (apart : Apart t.names (t.opened + x.opening?.toList.length)) : t.Confined (t.call x) x := by
  cases x with
  | openPage results size =>
    by_cases fits : size = 0 ∨ results.length ≤ size
    · rw [Confined, if_pos fits]
      exact congrArg Prod.snd (openPage_of_fits t fits)
    · rw [Call.opening?, if_neg fits] at apart
      obtain ⟨cursors, room, hcall, -⟩ := call_of_exceeds positive bounded fits
      have get? : ∀ cursor, (t.call (.openPage results size)).cursors.get? cursor =
          if cursor = t.names t.opened then some ⟨results.drop size, size, t.opened⟩
          else cursors.get? cursor := by
        intro cursor
        rw [hcall]
        exact Dict.get?_insert ..
      rw [Confined, if_neg fits]
      refine ⟨?_, (get? _).trans (if_pos rfl), ?_⟩
      · cases hopen : t.cursors.get? (t.names t.opened) with
        | none => rfl
        | some p =>
          have hserial : p.serial < t.opened := sound.opened _ p hopen
          exact absurd (sound.named _ p hopen).symm (apart.ne hserial (Nat.lt_succ_self _))
      · cases room with
        | spare room =>
          rw [if_pos room]
          exact fun cursor hcursor =>
            (get? cursor).trans (if_neg fun h => hcursor (List.mem_singleton.mpr h))
        | dropped full oldest =>
          rw [if_neg (by omega)]
          obtain ⟨k, hk, hname, eldest⟩ := sound.eldest (apart.anti (Nat.le_add_right ..)) oldest
          have hother : t.names k ≠ t.names t.opened := apart.ne hk (Nat.lt_succ_self _)
          refine ⟨k, eldest, ?_, fun cursor hcursor => ?_⟩
          · rw [get?, if_neg hother, hname, Dict.get?_erase, if_pos rfl]
          · rw [List.mem_cons, List.mem_singleton, not_or] at hcursor
            rw [get?, if_neg hcursor.1, hname, Dict.get?_erase, if_neg hcursor.2]
  | next cursor =>
    obtain ⟨cursors, serves⟩ := serves_next t cursor
    exact serves.sameBut
  | close cursor => exact ⟨t.cursors.get?_erase_self cursor, (serves_close t cursor).sameBut⟩

/-- After any calls, with different names for the cursors that they open: no more cursors are open
than are kept. The last call has left alone every cursor that it may not touch. Behind an open
cursor is a rest that is not empty, and what has been given of the result for which it was opened
comes before. All that has been given of a result is a part of it from its beginning, so nothing is
given twice. Nothing is given from behind a cursor that was never opened. -/
theorem cursors_isolated (limit : Nat) (names : Nat → String) (calls : List Call) (x : Call)
    (apart : Apart names (openings (calls ++ [x])).length) :
    let start := new limit names
    let t := start.after (calls ++ [x])
    t.size ≤ max 1 limit ∧
    (start.after calls).Confined t x ∧
    (∀ cursor p, t.cursors.get? cursor = some p →
      cursor = names p.serial ∧ p.rest ≠ [] ∧
      ∃ results, (openings (calls ++ [x]))[p.serial]? = some (results, p.pageSize) ∧
        start.delivered cursor (calls ++ [x]) ++ p.rest = results) ∧
    (∀ k results size, (openings (calls ++ [x]))[k]? = some (results, size) →
      start.delivered (names k) (calls ++ [x]) <+: results) ∧
    ∀ cursor, (∀ k < (openings (calls ++ [x])).length, names k ≠ cursor) →
      start.delivered cursor (calls ++ [x]) = [] := by
  intro start t
  have accounts : start.Accounts (calls ++ [x]) := accounts_after limit apart
  have apartBefore := apart
  rw [openings_concat, List.length_append] at apartBefore
  have before : start.Accounts calls :=
    accounts_after limit (apartBefore.anti (Nat.le_add_right ..))
  have hlimit : (start.after calls).limit = max 1 limit := before.limit
  refine ⟨accounts.bounded, ?_, fun cursor p hp => ?_, accounts.once, accounts.unknown⟩
  · show (start.after calls).Confined (start.after (calls ++ [x])) x
    rw [after_concat]
    refine confined_call before.sound ?_ ?_ ?_
    · rw [hlimit]
      exact Nat.le_max_left 1 limit
    · rw [hlimit]
      exact before.bounded
    · rw [before.names, before.opened]
      exact apartBefore
  · refine ⟨?_, accounts.held cursor p hp⟩
    exact (accounts.sound.named cursor p hp).trans (congrFun accounts.names _)

/-- What is known of a lamp, for pages. -/
def lampSummary (id : String) : Summary :=
  { id := ⟨id⟩, classname := "", hostname := "localhost", hostAddress := "127.0.0.1", port := 0,
    kind := .widget }

/-- Two who fetch lamps one by one, both of them once, and someone who closes what is not open. -/
def twoReaders : List Call :=
  [.openPage (["a", "b", "c"].map lampSummary) 1, .openPage (["d", "e", "f"].map lampSummary) 1,
    .next "1", .next "0", .close "2"]

/-- A third one takes the place of the first although the second one has fetched longer ago. -/
theorem cursors_isolated_readers :
    let start := new 2 Text.ofNat
    let x : Call := .openPage (["g", "h"].map lampSummary) 1
    let t := start.after (twoReaders ++ [x])
    Apart Text.ofNat (openings (twoReaders ++ [x])).length ∧
    (start.after twoReaders).Confined t x ∧
    start.delivered "0" (twoReaders ++ [x]) = ["a", "b"].map lampSummary ∧
    t.cursors.get? "0" = none ∧
    t.cursors.get? "1" = some ⟨["f"].map lampSummary, 1, 1⟩ ∧
    ∃ results, (openings (twoReaders ++ [x]))[1]? = some (results, 1) ∧
      start.delivered "1" (twoReaders ++ [x]) ++ ["f"].map lampSummary = results := by
  intro start x t
  have apart : Apart Text.ofNat (openings (twoReaders ++ [x])).length := by decide +kernel
  have behind : t.cursors.get? "1" = some ⟨["f"].map lampSummary, 1, 1⟩ := by decide +kernel
  obtain ⟨-, confined, held, -⟩ := cursors_isolated 2 Text.ofNat twoReaders x apart
  obtain ⟨-, -, results, hopening, hresults⟩ := held "1" _ behind
  exact ⟨apart, confined, by decide +kernel, by decide +kernel, behind, results, hopening, hresults⟩

end CursorTable

end Rendezvous
