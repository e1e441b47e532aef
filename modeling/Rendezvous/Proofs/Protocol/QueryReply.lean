import Rendezvous.Proofs.Protocol.Refusal
/-!
# The replies to queries

Whatever has been asked of a service and has happened to it, the reply to a query tells apart four
cases (`QueryOutcome`): there is no query, what there is is none, it holds of nobody, or it holds of
somebody, who is on the page then. Which of them it is depends on the message and the registered
components only, and the code says it (`Mediator.query_reply_exact`).

What is a query is said by its grammar and whom it holds of by its verdict, so neither the reader
nor the index is asked.
-/

namespace Rendezvous

/-! ## The query in a body -/

/-- Whether a body holds no query. -/
def NoQuery (body : Node) : Prop :=
  body.child? "predicate" = none ∨ ∃ p, body.child? "predicate" = some p ∧ p.children = []

/-- Whether a body holds a query or what is in the place of one. -/
def HoldsQuery (body tree : Node) : Prop :=
  ∃ p rest, body.child? "predicate" = some p ∧ p.children = tree :: rest

theorem HoldsQuery.unique {body tree tree' : Node} (h : HoldsQuery body tree)
    (h' : HoldsQuery body tree') : tree = tree' := by
  obtain ⟨p, rest, hp, hchildren⟩ := h
  obtain ⟨p', rest', hp', hchildren'⟩ := h'
  rw [hp] at hp'
  cases hp'
  rw [hchildren] at hchildren'
  exact (List.cons.inj hchildren').1

theorem HoldsQuery.not_noQuery {body tree : Node} (h : HoldsQuery body tree) : ¬ NoQuery body := by
  obtain ⟨p, rest, hp, hchildren⟩ := h
  rintro (hnone | ⟨p', hp', hempty⟩)
  · rw [hp] at hnone
    cases hnone
  · rw [hp] at hp'
    cases hp'
    rw [hchildren] at hempty
    cases hempty

/-- What is read as the query of a body: nothing without one, and something exactly if it belongs to
the grammar of queries. -/
theorem RequestBody.predicateOf_cases (body : Node) :
    (NoQuery body ∧ predicateOf body = .ok none) ∨
    ∃ tree, HoldsQuery body tree ∧
      ((¬ Query.Grammar tree ∧ ∃ e, predicateOf body = .error (.invalidQuery e)) ∨
        ∃ q, Query.Grammar tree ∧ Query.ofNode tree = .ok q ∧ q.validate = .ok () ∧
          predicateOf body = .ok (some q)) := by
  cases hp : body.child? "predicate" with
  | none =>
    refine .inl ⟨.inl hp, ?_⟩
    rw [predicateOf, hp]
    rfl
  | some p =>
    cases hchildren : p.children with
    | nil =>
      refine .inl ⟨.inr ⟨p, hp, hchildren⟩, ?_⟩
      rw [predicateOf, hp, Option.bind_some, hchildren]
      rfl
    | cons tree rest =>
      refine .inr ⟨tree, ⟨p, rest, hp, hchildren⟩, ?_⟩
      cases hdecode : Query.decode tree with
      | error e =>
        refine .inl ⟨fun grammar => ?_, e, ?_⟩
        · obtain ⟨q, hq⟩ := (Query.codec.2 tree).mpr grammar
          rw [hdecode] at hq
          cases hq
        · rw [predicateOf, hp, Option.bind_some, hchildren]
          simp only [List.head?_cons, hdecode]
      | ok q =>
        obtain ⟨hq, sound⟩ := Query.decode_eq_ok.mp hdecode
        refine .inr ⟨q, Query.grammar_of_ofNode hq sound, hq, Query.validate_eq_ok.mpr sound, ?_⟩
        rw [predicateOf, hp, Option.bind_some, hchildren]
        simp only [List.head?_cons, hdecode]

/-! ## Four outcomes -/

/-- What comes of a query to a directory, by the code that says it. -/
inductive QueryOutcome (d : Directory) (body : Node) : ReplyCode → Prop
  | none (missing : NoQuery body) : QueryOutcome d body .emptyQuery
  | malformed {tree : Node} (holds : HoldsQuery body tree) (bad : ¬ Query.Grammar tree) :
      QueryOutcome d body .invalidQuery
  | nobody {tree : Node} {q : Query} (holds : HoldsQuery body tree) (good : Query.Grammar tree)
      (read : Query.ofNode tree = .ok q)
      (nobody : ∀ id c, d.get? id = some c → q.verdict c ≠ .holds) :
      QueryOutcome d body .emptyResult
  | somebody {tree : Node} {q : Query} (holds : HoldsQuery body tree) (good : Query.Grammar tree)
      (read : Query.ofNode tree = .ok q)
      (somebody : ∃ id c, d.get? id = some c ∧ q.verdict c = .holds) :
      QueryOutcome d body .noError

namespace QueryOutcome

variable {d : Directory} {body : Node} {code : ReplyCode}

theorem emptyQuery_iff (h : QueryOutcome d body code) : code = .emptyQuery ↔ NoQuery body := by
  cases h with
  | none missing => exact iff_of_true rfl missing
  | malformed holds => exact iff_of_false (by decide) holds.not_noQuery
  | nobody holds => exact iff_of_false (by decide) holds.not_noQuery
  | somebody holds => exact iff_of_false (by decide) holds.not_noQuery

theorem invalidQuery_iff (h : QueryOutcome d body code) :
    code = .invalidQuery ↔ ∃ tree, HoldsQuery body tree ∧ ¬ Query.Grammar tree := by
  -- A body with a query holds no other tree.
  have good : ∀ {tree}, HoldsQuery body tree → Query.Grammar tree →
      ¬ ∃ tree, HoldsQuery body tree ∧ ¬ Query.Grammar tree := by
    rintro tree holds good ⟨tree', holds', bad⟩
    exact bad (holds.unique holds' ▸ good)
  cases h with
  | none missing => exact iff_of_false (by decide) fun ⟨_, holds, _⟩ => holds.not_noQuery missing
  | malformed holds bad => exact iff_of_true rfl ⟨_, holds, bad⟩
  | nobody holds grammar => exact iff_of_false (by decide) (good holds grammar)
  | somebody holds grammar => exact iff_of_false (by decide) (good holds grammar)

theorem emptyResult_iff (h : QueryOutcome d body code) :
    code = .emptyResult ↔ ∃ tree q, HoldsQuery body tree ∧ Query.Grammar tree ∧
      Query.ofNode tree = .ok q ∧ ∀ id c, d.get? id = some c → q.verdict c ≠ .holds := by
  cases h with
  | none missing => exact iff_of_false (by decide) fun ⟨_, _, holds, _⟩ => holds.not_noQuery missing
  | malformed holds bad =>
    exact iff_of_false (by decide) fun ⟨_, _, holds', good, _⟩ => bad (holds.unique holds' ▸ good)
  | nobody holds good read nobody => exact iff_of_true rfl ⟨_, _, holds, good, read, nobody⟩
  | somebody holds good read somebody =>
    refine iff_of_false (by decide) ?_
    rintro ⟨tree', q', holds', -, read', nobody⟩
    obtain ⟨id, c, hget, hverdict⟩ := somebody
    rw [← holds.unique holds', read] at read'
    cases read'
    exact nobody id c hget hverdict

theorem noError_iff (h : QueryOutcome d body code) :
    code = .noError ↔ ∃ tree q, HoldsQuery body tree ∧ Query.Grammar tree ∧
      Query.ofNode tree = .ok q ∧ ∃ id c, d.get? id = some c ∧ q.verdict c = .holds := by
  cases h with
  | none missing => exact iff_of_false (by decide) fun ⟨_, _, holds, _⟩ => holds.not_noQuery missing
  | malformed holds bad =>
    exact iff_of_false (by decide) fun ⟨_, _, holds', good, _⟩ => bad (holds.unique holds' ▸ good)
  | nobody holds good read nobody =>
    refine iff_of_false (by decide) ?_
    rintro ⟨tree', q', holds', -, read', id, c, hget, hverdict⟩
    rw [← holds.unique holds', read] at read'
    cases read'
    exact nobody id c hget hverdict
  | somebody holds good read somebody => exact iff_of_true rfl ⟨_, _, holds, good, read, somebody⟩

end QueryOutcome

namespace Mediator

variable {J : Type} [Journal J]

/-! ## Services that answer messages -/

/-- Whether a service comes of another by messages that it answers and by what happens to it
otherwise, such as that leases run out. Whoever is registered otherwise than by a message has the
attributes under their names. -/
inductive Becomes (start : Mediator J) : Mediator J → Prop
  | refl : Becomes start start
  | message {m : Mediator J} (h : Becomes start m) (now : Instant) (n : Node) :
      Becomes start (m.handle now n).2
  | operation {m : Mediator J} (h : Becomes start m) (now : Instant) (o : Operation)
      (keyed : ∀ c, o.Inserts m c → c.Keyed) : Becomes start (m.perform now o)

theorem Becomes.reaches {start m : Mediator J} (h : start.Becomes m) : start.Reaches m := by
  induction h with
  | refl => exact .refl
  | message _ now n ih => exact .message ih now n
  | operation _ now o _ ih => exact .operation ih now o

/-- A component that comes in a message has its attributes under their names. -/
theorem keyed_of_operation? {m : Mediator J} {body : RequestBody} (proper : body.Proper)
    {o : Operation} (h : operation? body = some o) {c : Component} (inserts : o.Inserts m c) :
    c.Keyed := by
  cases body with
  | register c' lease =>
    cases h
    obtain rfl : c = c' := inserts
    exact ⟨proper.1.constant.keyed, proper.1.nonConstant.keyed⟩
  | lookUp r => cases h
  | _ =>
    cases h
    cases inserts

/-- The index is that of the registered components, whatever messages come. -/
theorem Becomes.indexed {start m : Mediator J} (h : start.Becomes m)
    (indexed : start.directory.Indexed) : m.directory.Indexed := by
  induction h with
  | refl => exact indexed
  | @message m _ now n ih =>
    rcases m.handle_perform now n with hsame | ⟨r, o, hread, hop, hdone⟩
    · rw [hsame]
      exact ih
    · rw [hdone]
      exact indexed_perform ih now fun c => keyed_of_operation? (Request.proper_of_ofNode hread) hop
  | operation _ now o keyed ih => exact indexed_perform ih now keyed

/-! ## The reply to a query -/

/-- Whether a message is a request to a service with a query for its body. A page size need not be
there, but must be a number if it is. -/
structure Asks (m : Mediator J) (n body : Node) : Prop where
  name : n.name = "request"
  target : n.valueOf? "target" = some m.id.text
  first : n.children.find? (fun c => c.name ≠ "target") = some body
  query : body.name = "query"
  pageSize : ∀ raw, body.valueOf? "pageSize" = some raw →
    ∃ size, Text.word64? (Text.trim raw) = some size

/-- A query is run as the message has it, unless there is something in its place that is none. -/
theorem Asks.handleRequest {m : Mediator J} {n body : Node} (asks : m.Asks n body) (now : Instant) :
    ∃ size, m.handleRequest now n =
      match RequestBody.predicateOf body with
      | .error e => (.ofError e, m)
      | .ok q => m.execute now (.query q size) := by
  obtain ⟨size, hsize⟩ : ∃ size, body.parseOptional "pageSize" Text.word64? = .ok size := by
    cases hraw : body.valueOf? "pageSize" with
    | none => exact ⟨none, Node.parseOptional_eq_ok.mpr (.inl ⟨hraw, rfl⟩)⟩
    | some raw =>
      obtain ⟨size, hsize⟩ := asks.pageSize raw hraw
      exact ⟨some size, Node.parseOptional_eq_ok.mpr (.inr ⟨raw, size, hraw, hsize, rfl⟩)⟩
  refine ⟨size, ?_⟩
  have hbody : RequestBody.ofNode body = RequestBody.queryOf body := by
    unfold RequestBody.ofNode
    rw [asks.query]
    rfl
  have hrequest : Request.ofNode n =
      (RequestBody.queryOf body).map fun b => ⟨some m.id, b⟩ := by
    have hname : n.expectName Request.tag = .ok () := Node.expectName_eq_ok.mpr asks.name
    have hread : Request.ofNode n =
        (RequestBody.ofNode body).bind fun b => .ok ⟨some m.id, b⟩ := by
      unfold Request.ofNode
      rw [hname, asks.first, asks.target]
      rfl
    rw [hread, hbody]
    cases RequestBody.queryOf body <;> rfl
  have hquery : RequestBody.queryOf body =
      (RequestBody.predicateOf body).map fun q => .query q size := by
    unfold RequestBody.queryOf
    rw [hsize]
    cases RequestBody.predicateOf body <;> rfl
  unfold Mediator.handleRequest
  rw [hrequest, hquery]
  cases RequestBody.predicateOf body with
  | error e => rfl
  | ok q =>
    simp only [Except.map, checkTarget, if_true]

/-- A query is answered with a page, which is empty exactly if nobody is found. -/
theorem execute_query_of_valid {m : Mediator J} (faultless : m.registry.Faultless) (now : Instant)
    {q : Query} (valid : q.validate = .ok ()) (size : Option Nat) :
    ∃ page, (m.execute now (.query (some q) size)).1 = .ofPage page ∧
      page.isEmpty = (m.directory.search q).isEmpty := by
  simp only [execute, queryPage, query_of_valid faultless valid, replying]
  exact ⟨_, rfl, by rw [isEmpty_openPage, List.isEmpty_map]⟩

/-- Whatever has been asked of a service and has happened to it: the reply to a query has the code
of what comes of it, and without a failure it brings a page with components. -/
theorem Asks.outcome {m : Mediator J} (faultless : m.registry.Faultless)
    (indexed : m.directory.Indexed) {n body : Node} (asks : m.Asks n body) (now : Instant) :
    QueryOutcome m.directory body (m.handleRequest now n).1.code ∧
      ((m.handleRequest now n).1.code = .noError →
        ∃ page, (m.handleRequest now n).1.body = .components page ∧ page.components ≠ []) := by
  obtain ⟨size, handled⟩ := asks.handleRequest now
  rcases RequestBody.predicateOf_cases body with ⟨missing, hread⟩ |
    ⟨tree, holds, ⟨bad, e, hread⟩ | ⟨q, good, read, valid, hread⟩⟩
  · rw [handled, hread]
    exact ⟨.none missing, fun h => by cases h⟩
  · rw [handled, hread]
    exact ⟨.malformed holds bad, fun h => by cases h⟩
  · obtain ⟨page, hpage, hempty⟩ := execute_query_of_valid faultless now valid size
    rw [handled, hread]
    simp only [hpage]
    have found := Directory.mem_search indexed q
    cases hsearch : m.directory.search q with
    | nil =>
      rw [hsearch] at hempty found
      have hcode : (Reply.ofPage page).code = .emptyResult := if_pos hempty
      rw [hcode]
      refine ⟨.nobody holds good read fun id c hget hverdict => ?_, fun h => by cases h⟩
      have hid : c.id = id := indexed.named id c hget
      cases (found c).mpr ⟨hid ▸ hget, hverdict⟩
    | cons c rest =>
      rw [hsearch] at hempty found
      have filled : page.isEmpty = false := hempty
      have hcode : (Reply.ofPage page).code = .noError := by
        rw [Reply.ofPage, filled]
        rfl
      rw [hcode]
      obtain ⟨hget, hverdict⟩ := (found c).mp List.mem_cons_self
      exact ⟨.somebody holds good read ⟨c.id, c, hget, hverdict⟩,
        fun _ => ⟨page, rfl, List.isEmpty_eq_false_iff.mp filled⟩⟩

/-- Whatever has been asked of a service and has happened to it, a query is answered with the code
of an empty query exactly if the message has none, with that of an invalid one exactly if what is in
the place of a query does not belong to the grammar, and with that of an empty result exactly if it
does and holds of no registered component. Otherwise it is answered without a failure, and the page
is not empty. -/
theorem query_reply_exact {settings : MediatorSettings} {journal : J} {cursorNames : Nat → String}
    {subscriptionNames : Nat → SubscriptionId} {m : Mediator J}
    (reached : (new settings journal cursorNames subscriptionNames).Becomes m) (now : Instant)
    {n body : Node} (asks : m.Asks n body) :
    let reply := (m.handleRequest now n).1
    (m.handle now n).1 = reply.toNode ∧
    (reply.code = .emptyQuery ↔ NoQuery body) ∧
    (reply.code = .invalidQuery ↔ ∃ tree, HoldsQuery body tree ∧ ¬ Query.Grammar tree) ∧
    (reply.code = .emptyResult ↔ ∃ tree q, HoldsQuery body tree ∧ Query.Grammar tree ∧
      Query.ofNode tree = .ok q ∧
      ∀ id c, m.directory.get? id = some c → q.verdict c ≠ .holds) ∧
    (reply.code = .noError ↔ ∃ tree q, HoldsQuery body tree ∧ Query.Grammar tree ∧
      Query.ofNode tree = .ok q ∧
      ∃ id c, m.directory.get? id = some c ∧ q.verdict c = .holds) ∧
    (reply.code = .noError →
      ∃ page, reply.body = .components page ∧ page.components ≠ []) := by
  intro reply
  have indexed : m.directory.Indexed := reached.indexed Directory.indexed_empty
  have faultless : m.registry.Faultless := by
    obtain ⟨history, rfl⟩ := reached.reaches.exists_history
    exact ((matched_new settings journal cursorNames subscriptionNames).after history).faultless
  obtain ⟨outcome, filled⟩ := asks.outcome faultless indexed now
  refine ⟨?_, outcome.emptyQuery_iff, outcome.invalidQuery_iff, outcome.emptyResult_iff,
    outcome.noError_iff, filled⟩
  unfold handle
  rw [if_neg (by rw [asks.name]; decide)]

/-- Someone asks a service for widgets, one to a page. -/
def widgetsAsked (id : ComponentId) : Node :=
  .branch "request"
    [.leaf "target" id.text,
      .branch "query"
        [.branch "predicate" [(Query.kindIs .widget).toNode], .leaf "pageSize" " 1 "]]

/-- A desk that has registered is on the page. -/
theorem query_reply_exact_desk :
    let start : Mediator NoJournal := new {} ⟨⟩ Text.ofNat fun n => ⟨.supply 0 n⟩
    let m := (start.handle ⟨0⟩
      (Request.toNode ⟨some start.id, .register (plainDesk "desk") none⟩)).2
    let reply := (m.handleRequest ⟨1⟩ (widgetsAsked m.id)).1
    start.Becomes m ∧ (∃ body, m.Asks (widgetsAsked m.id) body) ∧ reply.code = .noError ∧
      ∃ page, reply.body = .components page ∧ page.components ≠ [] := by
  intro start m reply
  have reached : start.Becomes m := .message .refl _ _
  have asks : m.Asks (widgetsAsked m.id)
      (.branch "query"
        [.branch "predicate" [(Query.kindIs .widget).toNode], .leaf "pageSize" " 1 "]) := by
    refine ⟨rfl, rfl, rfl, rfl, fun raw h => ⟨1, ?_⟩⟩
    obtain rfl : " 1 " = raw := Option.some.inj h
    decide +kernel
  have hcode : reply.code = .noError := by decide +kernel
  exact ⟨reached, ⟨_, asks⟩, hcode, (query_reply_exact reached ⟨1⟩ asks).2.2.2.2.2 hcode⟩

end Mediator

end Rendezvous
