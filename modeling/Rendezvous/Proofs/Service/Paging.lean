import Rendezvous.Proofs.Service.Cursor
import Rendezvous.Proofs.Service.Membership
import Rendezvous.Proofs.Service.Effect
/-!
# Fetching a result page by page

The pages of a query, fetched one after the other while anything else happens between them, are the
result of the query when it ran (`Mediator.paged_exactly`). What is behind a cursor does not depend
on the components any more, so only what happens to the cursors matters, and of this only whether
the cursor is dropped for new ones.
-/

namespace Rendezvous

/-- Whether pages divide up a result: one after the other they have all of it, each says how many
components come after it, all but the last are full and give the cursor, the last one gives none, no
page of a result that has components is empty, and a page size of zero makes one page. -/
structure Divides (size : Nat) (cursor : String) (results : List Summary) (pages : List Page) :
    Prop where
  all : pages.flatMap Page.components = results
  remaining : ∀ before page after, pages = before ++ page :: after →
    page.remaining = (after.flatMap Page.components).length
  full : ∀ before page after, pages = before ++ page :: after → after ≠ [] →
    page.components.length = size ∧ page.cursor = some cursor
  last : ∀ before page, pages = before ++ [page] → page.cursor = none
  filled : results ≠ [] → ∀ page ∈ pages, page.components ≠ []
  unpaged : size = 0 → pages.length = 1

/-- The pages of a result, as they are cut off it. -/
inductive Pages (size : Nat) (cursor : String) : List Summary → List Page → Prop
  | last {results : List Summary} (fits : results.length ≤ size) :
      Pages size cursor results [.whole results]
  | more {results : List Summary} {pages : List Page} (exceeds : size < results.length)
      (rest : Pages size cursor (results.drop size) pages) :
      Pages size cursor results
        (⟨results.take size, some cursor, (results.drop size).length⟩ :: pages)

theorem exists_pages {size : Nat} (hsize : 0 < size) (cursor : String) (results : List Summary) :
    ∃ pages, Pages size cursor results pages := by
  induction hlength : results.length using Nat.strongRecOn generalizing results with
  | ind length ih =>
    by_cases fits : results.length ≤ size
    · exact ⟨_, .last fits⟩
    · obtain ⟨pages, rest⟩ := ih (results.drop size).length
        (by rw [List.length_drop]; omega) (results.drop size) rfl
      exact ⟨_, .more (Nat.lt_of_not_le fits) rest⟩

theorem divides_whole (size : Nat) (cursor : String) (results : List Summary) :
    Divides size cursor results [.whole results] where
  all := List.append_nil _
  remaining before page after h := by
    cases before with
    | nil =>
      cases h
      rfl
    | cons _ before => simp at h
  full before page after h hafter := by
    cases before with
    | nil =>
      cases h
      exact absurd rfl hafter
    | cons _ before => simp at h
  last before page h := by
    cases before with
    | nil =>
      cases h
      rfl
    | cons _ before => simp at h
  filled hresults page h := by
    rw [List.mem_singleton.mp h]
    exact hresults
  unpaged _ := rfl

theorem Pages.ne_nil {size : Nat} {cursor : String} {results : List Summary} {pages : List Page}
    (h : Pages size cursor results pages) : pages ≠ [] := by
  cases h with
  | last => exact List.cons_ne_nil _ _
  | more => exact List.cons_ne_nil _ _

/-- A full page before pages that divide up the rest. -/
theorem Divides.cons {size : Nat} (hsize : 0 < size) {cursor : String} {results : List Summary}
    {pages : List Page} (exceeds : size < results.length) (hpages : pages ≠ [])
    (rest : Divides size cursor (results.drop size) pages) :
    Divides size cursor results
      (⟨results.take size, some cursor, (results.drop size).length⟩ :: pages) where
  all := by
    rw [List.flatMap_cons, rest.all]
    exact List.take_append_drop size results
  remaining before page after h := by
    cases before with
    | nil =>
      cases h
      rw [rest.all]
    | cons _ before =>
      cases h
      exact rest.remaining before page after rfl
  full before page after h hafter := by
    cases before with
    | nil =>
      cases h
      exact ⟨List.length_take_of_le (Nat.le_of_lt exceeds), rfl⟩
    | cons _ before =>
      cases h
      exact rest.full before page after rfl hafter
  last before page h := by
    cases before with
    | nil =>
      cases h
      exact absurd rfl hpages
    | cons _ before =>
      cases h
      exact rest.last before page rfl
  filled _ page h := by
    rcases List.mem_cons.mp h with rfl | h
    · refine List.ne_nil_of_length_pos ?_
      rw [List.length_take]
      omega
    · refine rest.filled (List.ne_nil_of_length_pos ?_) page h
      rw [List.length_drop]
      omega
  unpaged h := by omega

theorem Pages.divides {size : Nat} (hsize : 0 < size) {cursor : String} {results : List Summary}
    {pages : List Page} (h : Pages size cursor results pages) :
    Divides size cursor results pages := by
  induction h with
  | last _ => exact divides_whole size cursor _
  | more exceeds rest ih => exact ih.cons hsize exceeds rest.ne_nil

namespace Mediator

variable {J : Type}

theorem queryNext_of_none {m : Mediator J} {cursor : String}
    (h : m.cursors.cursors.get? cursor = none) :
    m.queryNext cursor = (.error (.queryNotFound cursor), m) := by
  unfold queryNext
  rw [CursorTable.next_of_none h]

theorem queryNext_of_last {m : Mediator J} {cursor : String} {p : Pending}
    (h : m.cursors.cursors.get? cursor = some p) (fits : p.rest.length ≤ p.pageSize) :
    m.queryNext cursor = (.ok (.whole p.rest), { m with
      cursors := { m.cursors with cursors := m.cursors.cursors.erase cursor } }) := by
  unfold queryNext
  rw [CursorTable.next_of_last h fits]

theorem queryNext_of_more {m : Mediator J} {cursor : String} {p : Pending}
    (h : m.cursors.cursors.get? cursor = some p) (exceeds : p.pageSize < p.rest.length) :
    m.queryNext cursor =
      (.ok ⟨p.rest.take p.pageSize, some cursor, (p.rest.drop p.pageSize).length⟩, { m with
        cursors := { m.cursors with
          cursors := m.cursors.cursors.insert cursor
            { p with rest := p.rest.drop p.pageSize } } }) := by
  unfold queryNext
  rw [CursorTable.next_of_more h exceeds]

section Journaled

variable [Journal J]

/-- On the cursors every operation is a call of the table, or none. -/
theorem turns_perform {allowed : String → Prop} {m : Mediator J} (named : m.directory.Named)
    (now : Instant) {o : Operation} (ok : ∀ name, o = .queryNext name → allowed name) :
    m.cursors.Turns allowed (m.perform now o).cursors := by
  by_cases ho : o.concern = .pages
  · cases o with
    | queryPage q pageSize =>
      show m.cursors.Turns allowed (m.queryPage q pageSize).2.cursors
      have hquery : (m.query q).2.cursors = m.cursors := by
        rcases m.query_cases q with h | h
        · rw [h]
        · rw [h]
      unfold queryPage
      split
      · next h =>
        rw [h] at hquery
        rw [← hquery]
        exact .refl
      · next found later h =>
        rw [h] at hquery
        rw [← hquery]
        exact .openPage .refl found _
    | queryNext name =>
      show m.cursors.Turns allowed (m.queryNext name).2.cursors
      unfold queryNext
      split
      · exact .refl
      · next fetched => exact .next .refl fetched (ok name rfl)
    | _ => cases ho
  · rw [(m.perform_effect now named o).cursors ho]
    exact .refl

theorem turns_after {allowed : String → Prop} {m : Mediator J} (named : m.directory.Named)
    {history : List (Instant × Operation)}
    (ok : ∀ o ∈ history, ∀ name, o.2 = .queryNext name → allowed name) :
    m.cursors.Turns allowed (m.after history).cursors := by
  induction history generalizing m with
  | nil => exact .refl
  | cons o rest ih =>
    have first := turns_perform named o.1 (ok o (List.mem_cons_self ..))
    have later := ih (named_perform named o.1 o.2) fun o ho => ok o (List.mem_cons_of_mem _ ho)
    exact first.trans later

/-- Fetches from a cursor again and again, with operations before each time. Gives the answers and
the service after them. -/
def fetch (m : Mediator J) (cursor : String) :
    List (List (Instant × Operation)) → List (Except ServiceError Page) × Mediator J
  | [] => ([], m)
  | operations :: rest =>
    let (answer, m') := (m.after operations).queryNext cursor
    let (answers, last) := m'.fetch cursor rest
    (answer :: answers, last)

theorem fetch_cons (m : Mediator J) (cursor : String) (operations : List (Instant × Operation))
    (rest : List (List (Instant × Operation))) {answer : Except ServiceError Page}
    {m' : Mediator J} (h : (m.after operations).queryNext cursor = (answer, m')) :
    m.fetch cursor (operations :: rest) =
      (answer :: (m'.fetch cursor rest).1, (m'.fetch cursor rest).2) := by
  rw [fetch, h]

theorem named_queryNext {m : Mediator J} (named : m.directory.Named) (cursor : String) :
    (m.queryNext cursor).2.directory.Named :=
  named_perform named ⟨0⟩ (.queryNext cursor)

theorem turns_queryNext {m : Mediator J} (named : m.directory.Named) (cursor : String) :
    m.cursors.Turns (fun _ => True) (m.queryNext cursor).2.cursors :=
  turns_perform named ⟨0⟩ (o := .queryNext cursor) fun _ _ => trivial

/-- A fetch is a call of the table, as are the operations before it. -/
theorem turns_fetchOnce {m : Mediator J} (named : m.directory.Named) (cursor : String)
    (operations : List (Instant × Operation)) :
    m.cursors.Turns (fun _ => True) ((m.after operations).queryNext cursor).2.cursors := by
  have before : m.cursors.Turns (fun _ => True) (m.after operations).cursors :=
    turns_after named fun _ _ _ _ => trivial
  exact before.trans (turns_queryNext (named_after named operations) cursor)

theorem turns_fetch {m : Mediator J} (named : m.directory.Named) (cursor : String)
    (between : List (List (Instant × Operation))) :
    m.cursors.Turns (fun _ => True) (m.fetch cursor between).2.cursors := by
  induction between generalizing m with
  | nil => exact .refl
  | cons operations rest ih =>
    exact (turns_fetchOnce named cursor operations).trans
      (ih (named_queryNext (named_after named operations) cursor))

/-- Whether a cursor is the one that was opened at the given time. -/
structure Opened (m : Mediator J) (cursor : String) (serial : Nat) : Prop where
  named : m.directory.Named
  sound : m.cursors.Sound
  name : m.cursors.names serial = cursor
  opened : serial < m.cursors.opened

omit [Journal J] in
/-- A valid query over a registry that does not fail is answered with all that it finds, or with a
page of it and a new cursor behind which the rest is. -/
theorem queryPage_opens {m : Mediator J} (named : m.directory.Named)
    (faultless : m.registry.Faultless) (sound : m.cursors.Sound) {q : Query}
    (valid : q.validate = .ok ()) (pageSize : Option Nat) :
    let results := (m.directory.search q).map Component.summary
    let size := pageSize.getD m.settings.defaultPageSize
    (∃ m', m.queryPage (some q) pageSize = (.ok (.whole results), m')) ∨
    (0 < size ∧ size < results.length ∧ ∃ m' cursor,
      m.queryPage (some q) pageSize =
        (.ok ⟨results.take size, some cursor, (results.drop size).length⟩, m') ∧
      m'.Opened cursor m.cursors.opened ∧
      m'.cursors.cursors.get? cursor = some ⟨results.drop size, size, m.cursors.opened⟩ ∧
      m'.cursors.limit = m.cursors.limit ∧ m'.cursors.opened = m.cursors.opened + 1) := by
  intro results size
  have hpage : m.queryPage (some q) pageSize = (.ok (m.cursors.openPage results size).1,
      { m with
        registry := m.registry.after m.directory
        cursors := (m.cursors.openPage results size).2 }) := by
    unfold queryPage query
    simp only [valid]
    rcases m.registry.search_cases q with ⟨e, fails, -⟩ | h
    · exact absurd fails (faultless.not_fails .search)
    · rw [h]
      rfl
  have soundOpened : (m.cursors.openPage results size).2.Sound := sound.openPage results size
  rcases sound.openPage_cases results size with ⟨-, h⟩ | ⟨positive, exceeds, cursors, -, -, h⟩
  · rw [h] at hpage
    exact .inl ⟨_, hpage⟩
  · rw [h] at hpage soundOpened
    refine .inr ⟨positive, exceeds, _, m.cursors.names m.cursors.opened, hpage,
      ⟨named, soundOpened, rfl, Nat.lt_succ_self _⟩, ?_, rfl, rfl⟩
    show (cursors.insert _ _).get? _ = _
    rw [Dict.get?_insert, if_pos rfl]

section Fetching

variable {m m' : Mediator J} {cursor : String} {serial : Nat}
  {operations : List (Instant × Operation)} {between : List (List (Instant × Operation))}

omit [Journal J] in
theorem Opened.turns (h : m.Opened cursor serial) (named : m'.directory.Named)
    {allowed : String → Prop} (turns : m.cursors.Turns allowed m'.cursors) :
    m'.Opened cursor serial := by
  obtain ⟨sound, hnames, -, hopened⟩ := turns.kept h.sound
  exact ⟨named, sound, by rw [hnames, h.name], Nat.lt_of_lt_of_le h.opened hopened⟩

theorem Opened.fetched (h : m.Opened cursor serial) :
    ((m.after operations).queryNext cursor).2.Opened cursor serial :=
  h.turns (named_queryNext (named_after h.named operations) cursor)
    (turns_fetchOnce h.named cursor operations)

/-- What is behind the cursor when it is fetched from next, after operations that do not fetch from
it themselves. -/
theorem get?_before_fetch (h : m.Opened cursor serial)
    (spared : ∀ o ∈ operations, o.2 ≠ .queryNext cursor)
    (distinct : (m.fetch cursor (operations :: between)).2.cursors.Distinct) :
    (m.after operations).cursors.cursors.get? cursor = m.cursors.cursors.get? cursor ∨
      ((m.after operations).cursors.cursors.get? cursor = none ∧
        serial + 1 + m.cursors.limit ≤ (m.after operations).cursors.opened) := by
  have before : m.cursors.Turns (fun name => name ≠ cursor) (m.after operations).cursors := by
    refine turns_after h.named fun o ho name hname => ?_
    rintro rfl
    exact spared o ho hname
  have named := named_after h.named operations
  have fetching := (turns_queryNext named cursor).trans
    (turns_fetch (named_queryNext named cursor) cursor between)
  have distinctBefore : (m.after operations).cursors.Distinct :=
    fetching.distinct (before.kept h.sound).1 distinct
  obtain ⟨-, sound, rfl, opened⟩ := h
  exact before.get? sound opened (fun _ hne => hne) distinctBefore

/-- Nothing is fetched any more from a cursor that has gone. -/
theorem fetch_of_gone (h : m.Opened cursor serial)
    (gone : m.cursors.cursors.get? cursor = none)
    (spared : ∀ operations ∈ between, ∀ o ∈ operations, o.2 ≠ .queryNext cursor)
    (distinct : (m.fetch cursor between).2.cursors.Distinct) :
    (m.fetch cursor between).1 =
      List.replicate between.length (.error (.queryNotFound cursor)) := by
  induction between generalizing m with
  | nil => rfl
  | cons operations rest ih =>
    have goneAfter : (m.after operations).cursors.cursors.get? cursor = none := by
      rcases get?_before_fetch h (spared operations (List.mem_cons_self ..)) distinct with
        hsame | ⟨hgone, -⟩
      · exact hsame.trans gone
      · exact hgone
    have hnext := queryNext_of_none goneAfter
    have later : (m.after operations).Opened cursor serial := by
      have fetched : ((m.after operations).queryNext cursor).2.Opened cursor serial := h.fetched
      rwa [hnext] at fetched
    rw [fetch_cons m cursor operations rest hnext] at distinct ⊢
    rw [ih later goneAfter (fun os hos => spared os (List.mem_cons_of_mem _ hos)) distinct]
    rfl

/-- What is fetched from a cursor are the pages of what is behind it, up to the last one or to one
before which the cursor has been dropped. In the latter case as many cursors have been opened since
it was as are kept. -/
theorem fetch_pages (h : m.Opened cursor serial) {results : List Summary} {size : Nat}
    {pages : List Page} (hpages : Pages size cursor results pages)
    (behind : m.cursors.cursors.get? cursor = some ⟨results, size, serial⟩)
    (spared : ∀ operations ∈ between, ∀ o ∈ operations, o.2 ≠ .queryNext cursor)
    (distinct : (m.fetch cursor between).2.cursors.Distinct) :
    ∃ count ≤ min pages.length between.length,
      (m.fetch cursor between).1 = (pages.take count).map .ok ++
        List.replicate (between.length - count) (.error (.queryNotFound cursor)) ∧
      (count < min pages.length between.length → serial + 1 + m.cursors.limit ≤
        (m.fetch cursor (between.take (count + 1))).2.cursors.opened) := by
  induction between generalizing m results pages with
  | nil => exact ⟨0, Nat.zero_le _, rfl, fun h => by simp at h⟩
  | cons operations rest ih =>
    have sparedLater : ∀ os ∈ rest, ∀ o ∈ os, o.2 ≠ .queryNext cursor :=
      fun os hos => spared os (List.mem_cons_of_mem _ hos)
    -- The table after this fetch, which is rewritten below to what the fetch makes of it.
    have later : ((m.after operations).queryNext cursor).2.Opened cursor serial := h.fetched
    rcases get?_before_fetch h (spared operations (List.mem_cons_self ..)) distinct with
      hsame | ⟨gone, overdue⟩
    · rw [behind] at hsame
      cases hpages with
      | last fits =>
        have hnext := queryNext_of_last hsame fits
        rw [hnext] at later
        rw [fetch_cons m cursor operations rest hnext] at distinct ⊢
        have gone : ((m.after operations).cursors.cursors.erase cursor).get? cursor = none := by
          rw [Dict.get?_erase, if_pos rfl]
        rw [fetch_of_gone later gone sparedLater distinct]
        exact ⟨1, by simp, rfl, fun h => by simp at h⟩
      | @more _ pages exceeds following =>
        have hnext := queryNext_of_more hsame exceeds
        rw [hnext] at later
        rw [fetch_cons m cursor operations rest hnext] at distinct ⊢
        obtain ⟨count, hcount, hfetch, hopenings⟩ := ih later following
          (by rw [Dict.get?_insert, if_pos rfl]) sparedLater distinct
        refine ⟨count + 1, ?_, ?_, ?_⟩
        · simp only [List.length_cons]
          omega
        · rw [hfetch]
          simp
        · intro hless
          have hopened := hopenings (by simp only [List.length_cons] at hless; omega)
          obtain ⟨-, -, hlimit, -⟩ := (turns_fetchOnce h.named cursor operations).kept h.sound
          rw [hnext] at hlimit
          rw [hlimit] at hopened
          rw [List.take_succ_cons, fetch_cons m cursor operations _ hnext]
          exact hopened
    · have hnext := queryNext_of_none gone
      rw [hnext] at later
      rw [fetch_cons m cursor operations rest hnext] at distinct ⊢
      refine ⟨0, Nat.zero_le _, ?_, fun _ => ?_⟩
      · rw [fetch_of_gone later gone sparedLater distinct]
        rfl
      · rw [List.take_succ_cons, fetch_cons m cursor operations _ hnext]
        exact overdue

end Fetching

/-- After any history of a service, a valid query with any page size finds the components of which
it holds, by name, and its pages divide up their summaries. The first page is the answer to the
query, the others are fetched with the cursor, with any operations before each fetch that do not
fetch with it themselves. After the last page the cursor is unknown. Only if as many cursors have
been opened since as are kept, it may be unknown before. -/
theorem paged_exactly (settings : MediatorSettings) (journal : J) (cursorNames : Nat → String)
    (subscriptionNames : Nat → SubscriptionId) {history : List (Instant × Operation)}
    (keyed : (new settings journal cursorNames subscriptionNames).KeyedAlong history) {q : Query}
    (valid : q.validate = .ok ()) (pageSize : Option Nat) :
    let m := (new settings journal cursorNames subscriptionNames).after history
    let size := pageSize.getD settings.defaultPageSize
    ∃ found : List Component,
      (∀ c, c ∈ found ↔ m.directory.get? c.id = some c ∧ q.verdict c = .holds) ∧
      (found.Pairwise fun a b => compare a.id b.id = .lt) ∧
      ∃ first m' cursor rest, m.queryPage (some q) pageSize = (.ok first, m') ∧
        Divides size cursor (found.map Component.summary) (first :: rest) ∧
        (rest ≠ [] → ∀ between : List (List (Instant × Operation)),
          (∀ operations ∈ between, ∀ o ∈ operations, o.2 ≠ .queryNext cursor) →
          (m'.fetch cursor between).2.cursors.Distinct →
          ∃ count ≤ min rest.length between.length,
            (m'.fetch cursor between).1 = (rest.take count).map .ok ++
              List.replicate (between.length - count) (.error (.queryNotFound cursor)) ∧
            (count < min rest.length between.length →
              m'.cursors.opened + max 1 settings.maxCursors ≤
                (m'.fetch cursor (between.take (count + 1))).2.cursors.opened)) := by
  intro m size
  let start := new settings journal cursorNames subscriptionNames
  have indexed : m.directory.Indexed :=
    KeyedAlong.indexed (m := start) Directory.indexed_empty keyed
  have faultless : m.registry.Faultless :=
    ((matched_new settings journal cursorNames subscriptionNames).after history).faultless
  have hsettings : m.settings = settings :=
    settings_after (m := start) Directory.named_empty history
  have turns : start.cursors.Turns (fun _ => True) m.cursors :=
    turns_after (m := start) Directory.named_empty fun _ _ _ _ => trivial
  obtain ⟨sound, -, hlimit, -⟩ := turns.kept (CursorTable.sound_new _ _)
  refine ⟨m.directory.search q, Directory.mem_search indexed q,
    Directory.search_ascending indexed q, ?_⟩
  have hopens := queryPage_opens indexed.named faultless sound valid pageSize
  rw [hsettings] at hopens
  rcases hopens with ⟨m', hpage⟩ |
    ⟨positive, exceeds, m', cursor, hpage, opened, behind, hkept, hopened⟩
  · exact ⟨_, m', "", [], hpage, divides_whole size "" _, fun h => absurd rfl h⟩
  · obtain ⟨rest, hrest⟩ := exists_pages positive cursor
      (((m.directory.search q).map Component.summary).drop size)
    have divides := (hrest.divides positive).cons positive exceeds hrest.ne_nil
    refine ⟨_, m', cursor, rest, hpage, divides, fun _ between spared distinct => ?_⟩
    have fetched := fetch_pages opened hrest behind spared distinct
    rw [hkept, hlimit, ← hopened] at fetched
    exact fetched

end Journaled

/-- A desk as it registers, in a message. -/
def deskNode (id : String) : Node := .branch Component.tag [.leaf "id" id, .leaf "type" "widget"]

/-- The desk of this message. -/
def plainDesk (id : String) : Component := { id := ⟨id⟩, kind := .widget }

/-- Three desks that register. -/
def threeDesks : List (Instant × Operation) :=
  [(⟨0⟩, .register (plainDesk "c") none), (⟨1⟩, .register (plainDesk "a") none),
    (⟨2⟩, .register (plainDesk "b") none)]

/-- Two desks to a page make a second page with the third desk, which is fetched also after a desk
has gone. -/
theorem paged_exactly_threeDesks :
    let start : Mediator NoJournal := new {} ⟨⟩ Text.ofNat fun n => ⟨.supply 0 n⟩
    let m := start.after threeDesks
    let widgets : Query := .kindIs .widget
    let between : List (List (Instant × Operation)) := [[(⟨3⟩, .unregister ⟨"c"⟩)], []]
    start.KeyedAlong threeDesks ∧ widgets.validate = .ok () ∧
      ∃ (found : List Component) (first : Page) (m' : Mediator NoJournal) (cursor : String)
        (rest : List Page), m.queryPage (some widgets) (some 2) = (.ok first, m') ∧
        first.components.map Summary.id = [⟨"a"⟩, ⟨"b"⟩] ∧
        Divides 2 cursor (found.map Component.summary) (first :: rest) ∧
        (rest.flatMap Page.components).length = 1 ∧
        (∀ operations ∈ between, ∀ o ∈ operations, o.2 ≠ .queryNext cursor) ∧
        (m'.fetch cursor between).2.cursors.Distinct ∧
        ∃ count ≤ min rest.length between.length,
          (m'.fetch cursor between).1 = (rest.take count).map .ok ++
            List.replicate (between.length - count) (.error (.queryNotFound cursor)) := by
  intro start m widgets between
  have read : ∀ id ∈ ["a", "b", "c"], Component.ofNode (deskNode id) = .ok (plainDesk id) := by
    decide +kernel
  have keyed : start.KeyedAlong threeDesks := by
    refine ⟨fun c h => ?_, fun c h => ?_, fun c h => ?_, trivial⟩
    · obtain rfl : c = plainDesk "c" := h
      exact Component.keyed_ofNode (read "c" (by decide))
    · obtain rfl : c = plainDesk "a" := h
      exact Component.keyed_ofNode (read "a" (by decide))
    · obtain rfl : c = plainDesk "b" := h
      exact Component.keyed_ofNode (read "b" (by decide))
  have valid : widgets.validate = .ok () := by decide +kernel
  obtain ⟨found, -, -, first, m', cursor, rest, hpage, divides, fetched⟩ :=
    paged_exactly {} (⟨⟩ : NoJournal) Text.ofNat (fun n => ⟨.supply 0 n⟩) keyed valid (some 2)
  have hfirst : (m.queryPage (some widgets) (some 2)).1 =
      .ok ⟨[(plainDesk "a").summary, (plainDesk "b").summary], some "0", 1⟩ := by
    decide +kernel
  have hsame := (congrArg Prod.fst hpage).symm.trans hfirst
  cases hsame
  have hm' : m' = (m.queryPage (some widgets) (some 2)).2 := (congrArg Prod.snd hpage).symm
  have hlength : (rest.flatMap Page.components).length = 1 :=
    (divides.remaining [] _ rest rfl).symm
  have hrest : rest ≠ [] := by
    rintro rfl
    cases hlength
  obtain rfl : "0" = cursor := Option.some.inj (divides.full [] _ rest rfl hrest).2
  have spared : ∀ operations ∈ between, ∀ o ∈ operations, o.2 ≠ .queryNext "0" := by
    intro operations hoperations o ho
    simp only [between, List.mem_cons, List.not_mem_nil, or_false] at hoperations
    rcases hoperations with rfl | rfl
    · rw [List.mem_singleton.mp ho]
      exact Operation.noConfusion
    · cases ho
  have once : (m'.fetch "0" between).2.cursors.opened = 1 := by
    rw [hm']
    decide +kernel
  have distinct : (m'.fetch "0" between).2.cursors.Distinct := fun i hi j hj _ => by omega
  obtain ⟨count, hcount, answers, -⟩ := fetched hrest between spared distinct
  exact ⟨keyed, valid, found, _, m', "0", rest, hpage, rfl, divides, hlength, spared, distinct,
    count, hcount, answers⟩

end Mediator

end Rendezvous
