import Mathlib.Data.List.Nodup
import Mathlib.Data.List.Perm.Subperm
import Rendezvous.Service.Cursor
/-!
# The life of a cursor

A cursor goes when its last page is fetched, or when room is made for a new one and it is the oldest
of as many as are kept. The latter takes as many new cursors as are kept
(`CursorTable.Turns.get?`), as those that are open have been opened at different times since the
oldest of them. A name is not given again, so a cursor that has gone stays gone.
-/

namespace Rendezvous

namespace CursorTable

/-- Whether the open cursors have the names of the times at which they were opened. -/
structure Sound (t : CursorTable) : Prop where
  opened : ∀ name p, t.cursors.get? name = some p → p.serial < t.opened
  named : ∀ name p, t.cursors.get? name = some p → name = t.names p.serial

/-- Whether no name was given twice. -/
def Distinct (t : CursorTable) : Prop :=
  ∀ i < t.opened, ∀ j < t.opened, t.names i = t.names j → i = j

theorem sound_new (limit : Nat) (names : Nat → String) : (new limit names).Sound where
  opened _ _ h := by cases h
  named _ _ h := by cases h

/-- Cursors that were opened at different times: no more of them than times since the oldest. -/
theorem Sound.size_le {t : CursorTable} (sound : t.Sound) {serial : Nat}
    (oldest : ∀ e ∈ t.cursors.entries, serial ≤ e.2.serial) : t.size ≤ t.opened - serial := by
  have hserials : (t.cursors.entries.map fun e => e.2.serial).Nodup := by
    refine List.Nodup.of_map t.names ?_
    have hnames : ((t.cursors.entries.map fun e => e.2.serial).map t.names) =
        t.cursors.entries.map Prod.fst := by
      rw [List.map_map]
      refine List.map_congr_left fun e he => ?_
      exact (sound.named e.1 e.2 (Dict.mem_entries.mp he)).symm
    rw [hnames]
    exact t.cursors.distinct
  have hrange : (t.cursors.entries.map fun e => e.2.serial) ⊆
      List.range' serial (t.opened - serial) := by
    intro n hn
    obtain ⟨e, he, rfl⟩ := List.mem_map.mp hn
    have hopened := sound.opened e.1 e.2 (Dict.mem_entries.mp he)
    rw [List.mem_range'_1]
    have := oldest e he
    omega
  have hlength := (List.subperm_of_subset hserials hrange).length_le
  rwa [List.length_map, List.length_range'] at hlength

/-! ## Making room -/

/-- Going through a list and keeping the least so far finds the least. -/
theorem foldl_oldest
    {keep : Option (String × Pending) → String × Pending → Option (String × Pending)}
    {entries : List (String × Pending)} {least e : String × Pending}
    (h : entries.foldl keep (some least) = some e)
    (step : ∀ least e,
      keep (some least) e = if e.2.serial < least.2.serial then some e else some least) :
    e ∈ least :: entries ∧ ∀ e' ∈ least :: entries, e.2.serial ≤ e'.2.serial := by
  induction entries generalizing least with
  | nil =>
    cases h
    simp
  | cons head rest ih =>
    rw [List.foldl_cons, step] at h
    split at h
    · next hless =>
      obtain ⟨hmem, hleast⟩ := ih h
      refine ⟨List.mem_cons_of_mem _ hmem, fun e' he' => ?_⟩
      rcases List.mem_cons.mp he' with rfl | hrest
      · exact Nat.le_trans (hleast head (List.mem_cons_self ..)) (Nat.le_of_lt hless)
      · exact hleast e' hrest
    · next hnot =>
      obtain ⟨hmem, hleast⟩ := ih h
      have hfirst : e.2.serial ≤ least.2.serial := hleast least (List.mem_cons_self ..)
      constructor
      · rcases List.mem_cons.mp hmem with rfl | hrest
        · exact List.mem_cons_self ..
        · exact List.mem_cons_of_mem _ (List.mem_cons_of_mem _ hrest)
      · intro e' he'
        rcases List.mem_cons.mp he' with rfl | hothers
        · exact hfirst
        · rcases List.mem_cons.mp hothers with rfl | hrest
          · exact Nat.le_trans hfirst (Nat.le_of_not_lt hnot)
          · exact hleast e' (List.mem_cons_of_mem _ hrest)

/-- The oldest of the open cursors is found. -/
theorem oldest?_spec {t : CursorTable} {e : String × Pending} (h : t.oldest? = some e) :
    e ∈ t.cursors.entries ∧ ∀ e' ∈ t.cursors.entries, e.2.serial ≤ e'.2.serial := by
  unfold oldest? at h
  cases hentries : t.cursors.entries with
  | nil =>
    rw [hentries] at h
    cases h
  | cons head rest =>
    rw [hentries, List.foldl_cons] at h
    exact foldl_oldest h fun least e => rfl

theorem Sound.erase {t : CursorTable} (sound : t.Sound) (name : String) :
    Sound { t with cursors := t.cursors.erase name } where
  opened name' p h := by
    rw [Dict.get?_erase] at h
    split at h
    · cases h
    · exact sound.opened name' p h
  named name' p h := by
    rw [Dict.get?_erase] at h
    split at h
    · cases h
    · exact sound.named name' p h

/-- A cursor under the name of the time at which it was opened, beside some of those that are
open. -/
theorem Sound.insert {t : CursorTable} (sound : t.Sound) {cursors : Dict String Pending}
    (kept : ∀ name p, cursors.get? name = some p → t.cursors.get? name = some p) {opened : Nat}
    (later : t.opened ≤ opened) {p : Pending} (hp : p.serial < opened) :
    Sound { t with opened, cursors := cursors.insert (t.names p.serial) p } where
  opened name p' h := by
    rw [Dict.get?_insert] at h
    split at h
    · cases h
      exact hp
    · exact Nat.lt_of_lt_of_le (sound.opened name p' (kept name p' h)) later
  named name p' h := by
    rw [Dict.get?_insert] at h
    split at h
    · next hname =>
      cases h
      exact hname
    · exact sound.named name p' (kept name p' h)

/-- Making room drops cursors and does nothing else. A cursor stays if less have been opened since
than are kept. -/
theorem Sound.makeRoomWithin {t : CursorTable} (sound : t.Sound) (count : Nat) :
    ∃ cursors, t.makeRoomWithin count = { t with cursors } ∧
      (∀ name p, cursors.get? name = some p → t.cursors.get? name = some p) ∧
      ∀ name p, t.cursors.get? name = some p → t.opened - p.serial < t.limit →
        cursors.get? name = some p := by
  induction count generalizing t with
  | zero => exact ⟨t.cursors, rfl, fun _ _ h => h, fun _ _ h _ => h⟩
  | succ count ih =>
    unfold CursorTable.makeRoomWithin
    split
    · exact ⟨t.cursors, rfl, fun _ _ h => h, fun _ _ h _ => h⟩
    · next hfull =>
      split
      · next e holdest =>
        obtain ⟨hmem, hleast⟩ := oldest?_spec holdest
        obtain ⟨cursors, heq, hkept, hrecent⟩ := ih (sound.erase e.1)
        refine ⟨cursors, heq, fun name p h => ?_, fun name p h recent => ?_⟩
        · have herased := hkept name p h
          rw [Dict.get?_erase] at herased
          split at herased
          · cases herased
          · exact herased
        · refine hrecent name p ?_ recent
          rw [Dict.get?_erase]
          split
          · next hname =>
            -- The oldest goes only if there are as many as are kept.
            have hoverdue : t.size ≤ t.opened - e.2.serial := sound.size_le hleast
            have hentry : t.cursors.get? e.1 = some e.2 := Dict.mem_entries.mp hmem
            rw [hname, hentry] at h
            cases h
            omega
          · exact h
      · exact ⟨t.cursors, rfl, fun _ _ h => h, fun _ _ h _ => h⟩

/-- A result is given as a whole or leaves a rest behind a new cursor, for which an older one may
have to go. -/
theorem Sound.openPage_cases {t : CursorTable} (sound : t.Sound) (results : List Summary)
    (size : Nat) :
    ((size = 0 ∨ results.length ≤ size) ∧ t.openPage results size = (.whole results, t)) ∨
    (0 < size ∧ size < results.length ∧ ∃ cursors : Dict String Pending,
      (∀ name p, cursors.get? name = some p → t.cursors.get? name = some p) ∧
      (∀ name p, t.cursors.get? name = some p → t.opened - p.serial < t.limit →
        cursors.get? name = some p) ∧
      t.openPage results size =
        (⟨results.take size, some (t.names t.opened), (results.drop size).length⟩,
          { t with
            opened := t.opened + 1
            cursors := cursors.insert (t.names t.opened)
              ⟨results.drop size, size, t.opened⟩ })) := by
  unfold openPage
  split
  · next h => exact .inl ⟨h, rfl⟩
  · next h =>
    obtain ⟨cursors, heq, hkept, hrecent⟩ := sound.makeRoomWithin t.size
    refine .inr ⟨by omega, by omega, cursors, hkept, hrecent, ?_⟩
    unfold makeRoom
    rw [heq]

/-! ## The table as time goes by -/

/-- Whether a table comes of another one by calls, with fetching only from certain cursors. -/
inductive Turns (allowed : String → Prop) (t : CursorTable) : CursorTable → Prop
  | refl : Turns allowed t t
  | openPage {u : CursorTable} (h : Turns allowed t u) (results : List Summary) (size : Nat) :
      Turns allowed t (u.openPage results size).2
  | next {u u' : CursorTable} {page : Page} {name : String} (h : Turns allowed t u)
      (fetched : u.next name = .ok (page, u')) (ok : allowed name) : Turns allowed t u'

theorem Turns.trans {allowed : String → Prop} {t u v : CursorTable} (h : t.Turns allowed u)
    (h' : u.Turns allowed v) : t.Turns allowed v := by
  induction h' with
  | refl => exact h
  | openPage _ results size ih => exact .openPage ih results size
  | next _ fetched ok ih => exact .next ih fetched ok

theorem next_of_none {t : CursorTable} {name : String} (h : t.cursors.get? name = none) :
    t.next name = .error (.queryNotFound name) := by
  unfold next
  rw [h]

/-- What fits on a page is given, and the cursor closes. -/
theorem next_of_last {t : CursorTable} {name : String} {p : Pending}
    (h : t.cursors.get? name = some p) (fits : p.rest.length ≤ p.pageSize) :
    t.next name = .ok (.whole p.rest, { t with cursors := t.cursors.erase name }) := by
  unfold next
  rw [h]
  simp only [List.drop_eq_nil_of_le fits, List.isEmpty_nil, if_true, List.take_of_length_le fits]

/-- Of what exceeds a page a page is given, and the rest stays behind the cursor. -/
theorem next_of_more {t : CursorTable} {name : String} {p : Pending}
    (h : t.cursors.get? name = some p) (exceeds : p.pageSize < p.rest.length) :
    t.next name = .ok (⟨p.rest.take p.pageSize, some name, (p.rest.drop p.pageSize).length⟩,
      { t with cursors := t.cursors.insert name { p with rest := p.rest.drop p.pageSize } }) := by
  have hrest : (p.rest.drop p.pageSize).isEmpty = false := by
    rw [List.isEmpty_eq_false_iff, Ne, List.drop_eq_nil_iff]
    omega
  unfold next
  rw [h]
  simp only [hrest, Bool.false_eq_true, if_false]

/-- A page is taken from what is behind the cursor. -/
theorem next_cases {t t' : CursorTable} {name : String} {page : Page}
    (h : t.next name = .ok (page, t')) :
    ∃ p, t.cursors.get? name = some p ∧
      ((t' = { t with cursors := t.cursors.erase name }) ∨
        t' = { t with cursors :=
          t.cursors.insert name { p with rest := p.rest.drop p.pageSize } }) := by
  cases hget : t.cursors.get? name with
  | none =>
    rw [next_of_none hget] at h
    cases h
  | some p =>
    refine ⟨p, rfl, ?_⟩
    rcases Nat.lt_or_ge p.pageSize p.rest.length with exceeds | fits
    · rw [next_of_more hget exceeds] at h
      cases h
      exact .inr rfl
    · rw [next_of_last hget fits] at h
      cases h
      exact .inl rfl

theorem Sound.openPage {t : CursorTable} (sound : t.Sound) (results : List Summary)
    (size : Nat) : (t.openPage results size).2.Sound := by
  rcases sound.openPage_cases results size with ⟨-, h⟩ | ⟨-, -, cursors, hkept, -, h⟩
  · rw [h]
    exact sound
  · rw [h]
    exact sound.insert (p := ⟨results.drop size, size, t.opened⟩) hkept (Nat.le_succ _)
      (Nat.lt_succ_self _)

theorem Sound.next {t t' : CursorTable} (sound : t.Sound) {name : String} {page : Page}
    (h : t.next name = .ok (page, t')) : t'.Sound := by
  obtain ⟨p, hp, rfl | rfl⟩ := next_cases h
  · exact sound.erase name
  · obtain rfl : name = t.names p.serial := sound.named name p hp
    exact sound.insert (p := { p with rest := p.rest.drop p.pageSize }) (fun _ _ h => h)
      (Nat.le_refl _) (sound.opened _ p hp)

/-- What calls keep of a table. -/
theorem Turns.kept {allowed : String → Prop} {t u : CursorTable} (h : t.Turns allowed u)
    (sound : t.Sound) :
    u.Sound ∧ u.names = t.names ∧ u.limit = t.limit ∧ t.opened ≤ u.opened := by
  induction h with
  | refl => exact ⟨sound, rfl, rfl, Nat.le_refl _⟩
  | @openPage u h results size ih =>
    obtain ⟨soundBefore, hnames, hlimit, hopened⟩ := ih
    refine ⟨soundBefore.openPage results size, ?_⟩
    rcases soundBefore.openPage_cases results size with ⟨-, h⟩ | ⟨-, -, cursors, -, -, h⟩
    · rw [h]
      exact ⟨hnames, hlimit, hopened⟩
    · rw [h]
      exact ⟨hnames, hlimit, Nat.le_succ_of_le hopened⟩
  | next _ fetched _ ih =>
    obtain ⟨soundBefore, hnames, hlimit, hopened⟩ := ih
    refine ⟨soundBefore.next fetched, ?_⟩
    obtain ⟨p, -, rfl | rfl⟩ := next_cases fetched
    · exact ⟨hnames, hlimit, hopened⟩
    · exact ⟨hnames, hlimit, hopened⟩

theorem Distinct.anti {t u : CursorTable} (distinct : u.Distinct) (hnames : u.names = t.names)
    (hopened : t.opened ≤ u.opened) : t.Distinct := by
  intro i hi j hj h
  refine distinct i (Nat.lt_of_lt_of_le hi hopened) j (Nat.lt_of_lt_of_le hj hopened) ?_
  rw [hnames]
  exact h

theorem Turns.distinct {allowed : String → Prop} {t u : CursorTable} (h : t.Turns allowed u)
    (sound : t.Sound) (distinct : u.Distinct) : t.Distinct := by
  obtain ⟨-, hnames, -, hopened⟩ := h.kept sound
  exact distinct.anti hnames hopened

/-- Opening a cursor leaves what is behind an older one, or drops it if as many have been opened
since as are kept. -/
theorem Sound.get?_openPage {t : CursorTable} (sound : t.Sound) {serial : Nat}
    (hserial : serial < t.opened) (results : List Summary) (size : Nat)
    (distinct : (t.openPage results size).2.Distinct) :
    (t.openPage results size).2.cursors.get? (t.names serial) =
        t.cursors.get? (t.names serial) ∨
      ((t.openPage results size).2.cursors.get? (t.names serial) = none ∧
        serial + 1 + t.limit ≤ (t.openPage results size).2.opened) := by
  rcases sound.openPage_cases results size with ⟨-, heq⟩ | ⟨-, -, cursors, hkept, hrecent, heq⟩
  · rw [heq]
    exact .inl rfl
  · rw [heq] at distinct ⊢
    have hother : t.names serial ≠ t.names t.opened := by
      intro hsame
      have := distinct serial (Nat.lt_succ_of_lt hserial) t.opened (Nat.lt_succ_self _) hsame
      omega
    show (cursors.insert _ _).get? _ = _ ∨ (cursors.insert _ _).get? _ = _ ∧ _
    rw [Dict.get?_insert, if_neg hother]
    cases hentry : cursors.get? (t.names serial) with
    | some p => exact .inl (hkept (t.names serial) p hentry).symm
    | none =>
      cases hbefore : t.cursors.get? (t.names serial) with
      | none => exact .inl rfl
      | some p =>
        have hp : p.serial = serial := by
          have hopened := sound.opened (t.names serial) p hbefore
          have hnamed := sound.named (t.names serial) p hbefore
          exact (distinct serial (Nat.lt_succ_of_lt hserial) p.serial
            (Nat.lt_succ_of_lt hopened) hnamed).symm
        -- It would have stayed if it had been opened later.
        have overdue : ¬ t.opened - p.serial < t.limit := by
          intro recent
          rw [hrecent (t.names serial) p hbefore recent] at hentry
          cases hentry
        refine .inr ⟨rfl, ?_⟩
        show serial + 1 + t.limit ≤ t.opened + 1
        omega

/-- What is behind a cursor from which nobody fetches stays there, unless as many cursors have been
opened since as are kept; then it may be gone. Behind one that is gone there is nothing again. -/
theorem Turns.get? {allowed : String → Prop} {t u : CursorTable} (h : t.Turns allowed u)
    (sound : t.Sound) {serial : Nat} (hserial : serial < t.opened)
    (spared : ∀ name, allowed name → name ≠ t.names serial) (distinct : u.Distinct) :
    u.cursors.get? (t.names serial) = t.cursors.get? (t.names serial) ∨
      (u.cursors.get? (t.names serial) = none ∧ serial + 1 + t.limit ≤ u.opened) := by
  induction h with
  | refl => exact .inl rfl
  | @openPage u h results size ih =>
    obtain ⟨soundBefore, hnames, hlimit, hopened⟩ := h.kept sound
    have turn : u.Turns allowed (u.openPage results size).2 := .openPage .refl results size
    have opening := soundBefore.get?_openPage (Nat.lt_of_lt_of_le hserial hopened) results size
      distinct
    rw [hnames, hlimit] at opening
    rcases opening with hsame | overdue
    · rw [hsame]
      obtain ⟨-, -, -, hlater⟩ := turn.kept soundBefore
      exact (ih (turn.distinct soundBefore distinct)).imp_right fun ⟨gone, opened⟩ =>
        ⟨gone, Nat.le_trans opened hlater⟩
    · exact .inr overdue
  | @next u u' page name h fetched ok ih =>
    have hother : t.names serial ≠ name := (spared name ok).symm
    obtain ⟨p, -, rfl | rfl⟩ := next_cases fetched
    · show (u.cursors.erase name).get? _ = _ ∨ (u.cursors.erase name).get? _ = _ ∧ _
      rw [Dict.get?_erase, if_neg hother]
      exact ih distinct
    · show (u.cursors.insert name _).get? _ = _ ∨ (u.cursors.insert name _).get? _ = _ ∧ _
      rw [Dict.get?_insert, if_neg hother]
      exact ih distinct

/-! ## What is behind a cursor -/

/-- Whether there is something behind every open cursor, and its pages have components. -/
def Filled (t : CursorTable) : Prop :=
  ∀ name p, t.cursors.get? name = some p → p.rest ≠ [] ∧ 0 < p.pageSize

theorem filled_new (limit : Nat) (names : Nat → String) : (new limit names).Filled := by
  intro name p h
  cases h

theorem Sound.filled_openPage {t : CursorTable} (sound : t.Sound) (filled : t.Filled)
    (results : List Summary) (size : Nat) : (t.openPage results size).2.Filled := by
  rcases sound.openPage_cases results size with ⟨-, h⟩ | ⟨positive, exceeds, cursors, hkept, -, h⟩
  · rw [h]
    exact filled
  · rw [h]
    intro name p hp
    replace hp : (cursors.insert _ _).get? name = some p := hp
    rw [Dict.get?_insert] at hp
    split at hp
    · cases hp
      refine ⟨?_, positive⟩
      rw [Ne, List.drop_eq_nil_iff]
      omega
    · exact filled name p (hkept name p hp)

theorem Filled.next {t t' : CursorTable} (filled : t.Filled) {name : String} {page : Page}
    (h : t.next name = .ok (page, t')) : page.components ≠ [] ∧ t'.Filled := by
  cases hget : t.cursors.get? name with
  | none =>
    rw [next_of_none hget] at h
    cases h
  | some p =>
    obtain ⟨hrest, hsize⟩ := filled name p hget
    rcases Nat.lt_or_ge p.pageSize p.rest.length with exceeds | fits
    · rw [next_of_more hget exceeds] at h
      cases h
      refine ⟨?_, fun name' p' hp' => ?_⟩
      · rw [Ne, List.take_eq_nil_iff]
        rintro (hzero | hnil)
        · omega
        · exact hrest hnil
      · replace hp' : (t.cursors.insert name _).get? name' = some p' := hp'
        rw [Dict.get?_insert] at hp'
        split at hp'
        · cases hp'
          refine ⟨?_, hsize⟩
          rw [Ne, List.drop_eq_nil_iff]
          omega
        · exact filled name' p' hp'
    · rw [next_of_last hget fits] at h
      cases h
      refine ⟨hrest, fun name' p' hp' => ?_⟩
      replace hp' : (t.cursors.erase name).get? name' = some p' := hp'
      rw [Dict.get?_erase] at hp'
      split at hp'
      · cases hp'
      · exact filled name' p' hp'

/-- No call leaves an empty rest behind a cursor. -/
theorem Turns.filled {allowed : String → Prop} {t u : CursorTable} (h : t.Turns allowed u)
    (sound : t.Sound) (filled : t.Filled) : u.Filled := by
  induction h with
  | refl => exact filled
  | openPage h results size ih => exact (h.kept sound).1.filled_openPage ih results size
  | next _ fetched _ ih => exact (ih.next fetched).2

end CursorTable

end Rendezvous
