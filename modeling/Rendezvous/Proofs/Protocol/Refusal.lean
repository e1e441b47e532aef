import Rendezvous.Proofs.Protocol.Request
import Rendezvous.Proofs.Service.Paging
import Rendezvous.Protocol.Handler
/-!
# Refusals

A message that is answered with any code but that of success leaves the service as it was
(`Mediator.refusals_inert`): the components and their index, the leases, the subscriptions, the
cursors, what the service tells of itself, the journal and the requests to others. Only the calls to
the registry are counted.

Which messages these are is known from the state before (`Mediator.replyCode?`). Most operations
fail before they do anything. An empty page is a failure too, and is only noticed when the cursors
have been seen to; but nothing empty is ever left behind a cursor (`CursorTable.Filled`), and for a
result without components none is opened.
-/

namespace Rendezvous

theorem ServiceError.code_ne_noError (e : ServiceError) : e.code ≠ .noError := by
  cases e <;> exact ReplyCode.noConfusion

namespace Mediator

variable {J : Type}

/-- Whether nothing is different but the number of calls to the registry. -/
def Untouched (m m' : Mediator J) : Prop :=
  ∃ calls, m' = { m with registry := { m.registry with calls } }

theorem Untouched.refl (m : Mediator J) : m.Untouched m := ⟨m.registry.calls, rfl⟩

theorem Untouched.called (m : Mediator J) :
    m.Untouched { m with registry := m.registry.after m.directory } := ⟨m.registry.calls + 1, rfl⟩

theorem untouched_query (m : Mediator J) (q : Option Query) : m.Untouched (m.query q).2 := by
  rcases m.query_cases q with h | h
  · rw [h]
    exact .refl m
  · rw [h]
    exact .called m

/-- The code of the reply to a request for this service. -/
def bodyCode (m : Mediator J) : RequestBody → ReplyCode
  | .lookUp _ => .noError
  | .register c _ => if c.id.isBlank then .invalidData else .noError
  | .unregister id => if m.directory.contains id then .noError else .unknownComponent
  | .update id delta _ _ =>
    match m.directory.get? id with
    | none => .unknownComponent
    | some c =>
      if delta.values.any fun a => c.constant.contains a.name then .invalidAttribute else .noError
  | .query none _ => .emptyQuery
  | .query (some q) _ =>
    match q.validate with
    | .error _ => .invalidQuery
    | .ok () => if (m.directory.search q).isEmpty then .emptyResult else .noError
  | .queryNext cursor =>
    if (m.cursors.cursors.get? cursor).isSome then .noError else .queryNotFound
  | .subscribe r =>
    match Callback.ofText? r.callback, r.query with
    | none, _ => .unknownCallback
    | some _, none => .emptyQuery
    | some _, some q =>
      match q.validate with
      | .error _ => .invalidQuery
      | .ok () => .noError
  | .unsubscribe id =>
    if m.subscriptions.list.any fun s => s.id = id then .noError else .unknownSubscriber
  | .renewLease id _ => if m.directory.contains id then .noError else .unknownComponent

/-- The code of the reply to a message. A pong, which is no reply, has none. -/
def replyCode? (m : Mediator J) (n : Node) : Option ReplyCode :=
  if n.name = pingTag then none
  else
    match Request.ofNode n with
    | .error e => some e.code
    | .ok r =>
      match r.target, r.body with
      | some target, body => some (if target = m.id then m.bodyCode body else .invalidId)
      | none, .lookUp _ => some .noError
      | none, _ => some .invalidId

/-- The messages that are refused, each for a reason. Those with a query that cannot be read are
among the unreadable ones. -/
inductive Refused (m : Mediator J) (n : Node) : Prop
  | unreadable {e : ServiceError} (noPing : n.name ≠ pingTag) (h : Request.ofNode n = .error e)
  | untargeted {body : RequestBody} (h : Request.ofNode n = .ok ⟨none, body⟩)
      (demands : ∀ r, body ≠ .lookUp r)
  | misdirected {r : Request} {target : ComponentId} (h : Request.ofNode n = .ok r)
      (named : r.target = some target) (other : target ≠ m.id)
  | unknownUnregistered {id : ComponentId}
      (h : Request.ofNode n = .ok ⟨some m.id, .unregister id⟩)
      (unknown : m.directory.contains id = false)
  | unknownRenewed {id : ComponentId} {lease : Lease}
      (h : Request.ofNode n = .ok ⟨some m.id, .renewLease id lease⟩)
      (unknown : m.directory.contains id = false)
  | unknownUpdated {id : ComponentId} {delta : Attributes} {mode : UpdateMode}
      {lease : Option Lease} (h : Request.ofNode n = .ok ⟨some m.id, .update id delta mode lease⟩)
      (unknown : m.directory.contains id = false)
  | constant {id : ComponentId} {delta : Attributes} {mode : UpdateMode} {lease : Option Lease}
      {c : Component} {a : Attribute}
      (h : Request.ofNode n = .ok ⟨some m.id, .update id delta mode lease⟩)
      (known : m.directory.get? id = some c) (changed : a ∈ delta.values)
      (stays : c.constant.contains a.name = true)
  | noQuery {pageSize : Option Nat} (h : Request.ofNode n = .ok ⟨some m.id, .query none pageSize⟩)
  | noResult {q : Query} {pageSize : Option Nat}
      (h : Request.ofNode n = .ok ⟨some m.id, .query (some q) pageSize⟩)
      (nobody : m.directory.search q = [])
  | unknownCursor {cursor : String} (h : Request.ofNode n = .ok ⟨some m.id, .queryNext cursor⟩)
      (unknown : m.cursors.cursors.get? cursor = none)
  | unknownCallback {r : SubscribeRequest} (h : Request.ofNode n = .ok ⟨some m.id, .subscribe r⟩)
      (unknown : Callback.ofText? r.callback = none)
  | noStandingQuery {r : SubscribeRequest} (h : Request.ofNode n = .ok ⟨some m.id, .subscribe r⟩)
      (missing : r.query = none)
  | unknownSubscription {id : SubscriptionId}
      (h : Request.ofNode n = .ok ⟨some m.id, .unsubscribe id⟩)
      (unknown : ∀ s ∈ m.subscriptions.list, s.id ≠ id)

/-- A ping is not read as a request. -/
theorem name_ne_of_ofNode {n : Node} {r : Request} (h : Request.ofNode n = .ok r) :
    n.name ≠ pingTag := by
  obtain ⟨_, hname, -⟩ := Node.bind_eq_ok.mp h
  rw [Node.expectName_eq_ok.mp (RequestBody.field_eq_ok.mp hname)]
  decide

theorem replyCode?_of_body {m : Mediator J} {n : Node} {body : RequestBody}
    (h : Request.ofNode n = .ok ⟨some m.id, body⟩) : m.replyCode? n = some (m.bodyCode body) := by
  unfold replyCode?
  rw [if_neg (name_ne_of_ofNode h), h]
  simp only [if_true]

/-- A message that is refused is answered with the code of a failure. -/
theorem Refused.exists_code {m : Mediator J} {n : Node} (refused : m.Refused n) :
    ∃ code, m.replyCode? n = some code ∧ code ≠ .noError := by
  -- The requests for this service fail with a code of their bodies.
  have failing (code : ReplyCode) {body : RequestBody}
      (h : Request.ofNode n = .ok ⟨some m.id, body⟩) (hcode : m.bodyCode body = code)
      (hne : code ≠ .noError) : ∃ code, m.replyCode? n = some code ∧ code ≠ .noError :=
    ⟨code, (replyCode?_of_body h).trans (congrArg some hcode), hne⟩
  cases refused with
  | @unreadable e noPing h =>
    refine ⟨e.code, ?_, e.code_ne_noError⟩
    unfold replyCode?
    rw [if_neg noPing, h]
  | @untargeted body h demands =>
    refine ⟨.invalidId, ?_, by decide⟩
    unfold replyCode?
    rw [if_neg (name_ne_of_ofNode h), h]
    cases body with
    | lookUp r => exact absurd rfl (demands r)
    | _ => rfl
  | @misdirected r target h named other =>
    refine ⟨.invalidId, ?_, by decide⟩
    unfold replyCode?
    rw [if_neg (name_ne_of_ofNode h), h]
    simp only [named, if_neg other]
  | unknownUnregistered h unknown =>
    exact failing .unknownComponent h (by simp [bodyCode, unknown]) (by decide)
  | unknownRenewed h unknown =>
    exact failing .unknownComponent h (by simp [bodyCode, unknown]) (by decide)
  | unknownUpdated h unknown =>
    rw [Directory.contains_eq_isSome, Option.isSome_eq_false_iff, Option.isNone_iff_eq_none]
      at unknown
    exact failing .unknownComponent h (by simp [bodyCode, unknown]) (by decide)
  | @constant _ delta _ _ c a h known changed stays =>
    have hany : (delta.values.any fun a => c.constant.contains a.name) = true :=
      List.any_eq_true.mpr ⟨a, changed, stays⟩
    exact failing .invalidAttribute h (by simp only [bodyCode, known, hany, if_true])
      (by decide)
  | noQuery h => exact failing .emptyQuery h rfl (by decide)
  | @noResult q _ h nobody =>
    cases hvalid : q.validate with
    | error e => exact failing .invalidQuery h (by simp [bodyCode, hvalid]) (by decide)
    | ok _ =>
      exact failing .emptyResult h (by simp [bodyCode, hvalid, nobody]) (by decide)
  | unknownCursor h unknown =>
    exact failing .queryNotFound h (by simp [bodyCode, unknown]) (by decide)
  | unknownCallback h unknown =>
    exact failing .unknownCallback h (by simp [bodyCode, unknown]) (by decide)
  | @noStandingQuery r h missing =>
    cases hcallback : Callback.ofText? r.callback with
    | none =>
      exact failing .unknownCallback h (by simp [bodyCode, hcallback]) (by decide)
    | some callback =>
      exact failing .emptyQuery h (by simp [bodyCode, hcallback, missing]) (by decide)
  | unknownSubscription h unknown =>
    exact failing .unknownSubscriber h (by simpa [bodyCode] using unknown) (by decide)

/-! ## A failed operation leaves nothing behind -/

/-- An empty page is that of a result without components, for which no cursor is opened. -/
theorem openPage_of_isEmpty {t : CursorTable} {results : List Summary} {size : Nat}
    (h : (t.openPage results size).1.isEmpty = true) : (t.openPage results size).2 = t := by
  unfold CursorTable.openPage at h ⊢
  split
  · rfl
  · next hmore =>
    rw [if_neg hmore] at h
    have hpage : results.take size = [] := by simpa [Page.isEmpty] using h
    rw [List.take_eq_nil_iff] at hpage
    refine absurd ?_ hmore
    rcases hpage with hsize | hresults
    · exact .inl hsize
    · exact .inr (by simp [hresults])

theorem isEmpty_openPage (t : CursorTable) (results : List Summary) (size : Nat) :
    (t.openPage results size).1.isEmpty = results.isEmpty := by
  unfold CursorTable.openPage
  split
  · rfl
  · next hmore =>
    cases results with
    | nil => exact absurd (.inr (Nat.zero_le _)) hmore
    | cons s rest =>
      cases size with
      | zero => exact absurd (.inl rfl) hmore
      | succ size => rfl

section Journaled

variable [Journal J]

omit [Journal J] in
theorem untouched_replying {α : Type} {m : Mediator J} {reply : α → Reply} {answer : Answer J α}
    (failed : ∀ e, answer.1 = .error e → m.Untouched answer.2)
    (done : ∀ a, answer.1 = .ok a → (reply a).code ≠ .noError → m.Untouched answer.2)
    (refused : (replying reply answer).1.code ≠ .noError) :
    m.Untouched (replying reply answer).2 := by
  obtain ⟨result, m'⟩ := answer
  cases result with
  | error e => exact failed e rfl
  | ok a => exact done a rfl refused

theorem untouched_register {now : Instant} {m : Mediator J} {c : Component}
    {lease : Option Lease} {e : ServiceError} (h : (m.register now c lease).1 = .error e) :
    m.Untouched (m.register now c lease).2 := by
  rcases m.register_cases now c lease with ⟨_, heq⟩ | ⟨_, _, _, heq⟩
  · rw [heq]
    exact .called m
  · rw [heq] at h
    cases h

theorem untouched_update {now : Instant} {m : Mediator J} {id : ComponentId} {delta : Attributes}
    {mode : UpdateMode} {lease : Option Lease} {e : ServiceError}
    (h : (m.update now id delta mode lease).1 = .error e) :
    m.Untouched (m.update now id delta mode lease).2 := by
  rcases m.update_cases now id delta mode lease with ⟨_, heq⟩ | ⟨_, _, _, heq⟩
  · rw [heq]
    exact .called m
  · rw [heq] at h
    cases h

theorem untouched_unregister {m : Mediator J} {id : ComponentId} {e : ServiceError}
    (h : (m.unregister id).1 = .error e) : m.Untouched (m.unregister id).2 := by
  rcases m.unregister_cases id with ⟨_, heq⟩ | ⟨_, _, heq⟩
  · rw [heq]
    exact .called m
  · rw [heq] at h
    cases h

omit [Journal J] in
theorem untouched_renew {now : Instant} {m : Mediator J} {id : ComponentId} {lease : Lease}
    {e : ServiceError} (h : (m.renew now id lease).1 = .error e) :
    m.Untouched (m.renew now id lease).2 := by
  rcases m.renew_cases now id lease with ⟨_, heq⟩ | ⟨_, heq⟩
  · rw [heq]
    exact .called m
  · rw [heq] at h
    cases h

omit [Journal J] in
theorem untouched_queryPage {m : Mediator J} {q : Option Query} {pageSize : Option Nat}
    (h : ∀ page, (m.queryPage q pageSize).1 = .ok page → page.isEmpty = true) :
    m.Untouched (m.queryPage q pageSize).2 := by
  have queried := m.untouched_query q
  unfold queryPage at h ⊢
  split
  · next heq =>
    rw [heq] at queried
    exact queried
  · next found m' heq =>
    rw [heq] at h queried
    have empty : (m'.cursors.openPage found (pageSize.getD m'.settings.defaultPageSize)).1.isEmpty =
        true := h _ rfl
    simp only [openPage_of_isEmpty empty]
    exact queried

omit [Journal J] in
theorem untouched_queryNext {m : Mediator J} (filled : m.cursors.Filled) {cursor : String}
    (h : ∀ page, (m.queryNext cursor).1 = .ok page → page.isEmpty = true) :
    m.Untouched (m.queryNext cursor).2 := by
  unfold queryNext at h ⊢
  split
  · exact .refl m
  · next page cursors heq =>
    rw [heq] at h
    have hempty : page.components = [] := List.isEmpty_iff.mp (h page rfl)
    exact absurd hempty (filled.next heq).1

omit [Journal J] in
theorem untouched_subscribe {m : Mediator J} {r : SubscribeRequest} {e : ServiceError}
    (h : (m.subscribe r).1 = .error e) : m.Untouched (m.subscribe r).2 := by
  unfold subscribe at h ⊢
  split
  · exact .refl m
  · next callback hcallback =>
    split
    · exact .refl m
    · next query hquery =>
      split
      · exact .refl m
      · next hvalid => simp [hcallback, hquery, hvalid] at h

omit [Journal J] in
theorem untouched_unsubscribe {m : Mediator J} {id : SubscriptionId} {e : ServiceError}
    (h : (m.unsubscribe id).1 = .error e) : m.Untouched (m.unsubscribe id).2 := by
  unfold unsubscribe at h ⊢
  split
  · exact .refl m
  · next heq =>
    rw [heq] at h
    cases h

theorem untouched_execute {m : Mediator J} (filled : m.cursors.Filled) {now : Instant}
    {body : RequestBody} (refused : (m.execute now body).1.code ≠ .noError) :
    m.Untouched (m.execute now body).2 := by
  have paged {page : Page} (h : (Reply.ofPage page).code ≠ .noError) : page.isEmpty = true := by
    unfold Reply.ofPage at h
    split at h
    · assumption
    · exact absurd rfl h
  cases body with
  | lookUp r => exact .refl m
  | register c lease =>
    exact untouched_replying (fun _ => untouched_register) (fun _ _ h => absurd rfl h) refused
  | unregister id =>
    exact untouched_replying (fun _ => untouched_unregister) (fun _ _ h => absurd rfl h) refused
  | update id delta mode lease =>
    exact untouched_replying (fun _ => untouched_update) (fun _ _ h => absurd rfl h) refused
  | query q pageSize =>
    refine untouched_replying (fun e he => ?_) (fun page hpage h => ?_) refused
    · exact untouched_queryPage fun page hpage => by cases he.symm.trans hpage
    · refine untouched_queryPage fun page' hpage' => ?_
      cases hpage.symm.trans hpage'
      exact paged h
  | queryNext cursor =>
    refine untouched_replying (fun e he => ?_) (fun page hpage h => ?_) refused
    · exact untouched_queryNext filled fun page hpage => by cases he.symm.trans hpage
    · refine untouched_queryNext filled fun page' hpage' => ?_
      cases hpage.symm.trans hpage'
      exact paged h
  | subscribe r =>
    rw [execute] at refused ⊢
    exact untouched_replying (fun _ => untouched_subscribe) (fun _ _ h => absurd rfl h) refused
  | unsubscribe id =>
    exact untouched_replying (fun _ => untouched_unsubscribe) (fun _ _ h => absurd rfl h) refused
  | renewLease id lease =>
    exact untouched_replying (fun _ => untouched_renew) (fun _ _ h => absurd rfl h) refused

theorem untouched_handleRequest {m : Mediator J} (filled : m.cursors.Filled) {now : Instant}
    {n : Node} (refused : (m.handleRequest now n).1.code ≠ .noError) :
    m.Untouched (m.handleRequest now n).2 := by
  unfold handleRequest at refused ⊢
  split
  · exact .refl m
  · next hread =>
    simp only [hread] at refused
    split
    · exact .refl m
    · next htarget =>
      rw [htarget] at refused
      exact untouched_execute filled refused

theorem untouched_handle {m : Mediator J} (filled : m.cursors.Filled) {now : Instant} {n : Node}
    {code : ReplyCode} (hcode : (m.handle now n).1.valueOf? "code" = some code.name)
    (refused : code ≠ .noError) : m.Untouched (m.handle now n).2 := by
  unfold handle at hcode ⊢
  split
  · exact .refl m
  · next hname =>
    rw [if_neg hname] at hcode
    have hreply : (m.handleRequest now n).1.code.name = code.name := by
      replace hcode : (Reply.toNode _).valueOf? "code" = _ := hcode
      rw [Reply.toNode, Node.valueOf?_branch_cons] at hcode
      exact Option.some.inj hcode
    refine untouched_handleRequest filled fun hok => ?_
    rw [hok] at hreply
    have hread := ReplyCode.ofText_name code
    rw [← hreply, ReplyCode.ofText_name] at hread
    exact refused (Except.ok.inj hread).symm

/-! ## The code of a reply -/

theorem register_code {m : Mediator J} (faultless : m.registry.Faultless) (now : Instant)
    (c : Component) (lease : Option Lease) :
    (m.execute now (.register c lease)).1.code = m.bodyCode (.register c lease) := by
  simp only [execute, register, bodyCode]
  rcases faultless.call_cases .add (fun d => d.insert c) with ⟨e, hop, h⟩ | ⟨previous, d, hop, h⟩
  · rw [show m.registry.add c = _ from h]
    unfold Directory.insert at hop
    split at hop
    · next blank =>
      cases hop
      rw [if_pos blank]
      rfl
    · cases hop
  · rw [show m.registry.add c = _ from h]
    obtain ⟨filled, -⟩ := Directory.insert_eq_ok.mp hop
    rw [filled]
    rfl

theorem update_code {m : Mediator J} (faultless : m.registry.Faultless) (now : Instant)
    (id : ComponentId) (delta : Attributes) (mode : UpdateMode) (lease : Option Lease) :
    (m.execute now (.update id delta mode lease)).1.code =
      m.bodyCode (.update id delta mode lease) := by
  simp only [execute, update, bodyCode]
  rcases faultless.call_cases .update (fun d => d.update id delta mode) with
    ⟨e, hop, h⟩ | ⟨updated, d, hop, h⟩
  · rw [show m.registry.update id delta mode = _ from h]
    unfold Directory.update at hop
    cases hget : m.directory.get? id with
    | none =>
      rw [show m.registry.directory.get? id = none from hget] at hop
      cases hop
      rfl
    | some c =>
      rw [show m.registry.directory.get? id = some c from hget] at hop
      simp only at hop
      split at hop
      · next a found =>
        cases hop
        have hconstant := List.find?_some found
        have hany : (delta.values.any fun a => c.constant.contains a.name) = true :=
          List.any_eq_true.mpr ⟨a, List.mem_of_find?_eq_some found, hconstant⟩
        simp only [hany, if_true]
        rfl
      · cases hop
  · rw [show m.registry.update id delta mode = _ from h]
    obtain ⟨c, hget, free, -⟩ := Directory.update_eq_ok.mp hop
    have hany : (delta.values.any fun a => c.constant.contains a.name) = false := by
      simpa using free
    rw [show m.directory.get? id = some c from hget]
    simp only [hany, Bool.false_eq_true, if_false]
    cases lease <;> rfl

theorem unregister_code {m : Mediator J} (faultless : m.registry.Faultless) (now : Instant)
    (id : ComponentId) :
    (m.execute now (.unregister id)).1.code = m.bodyCode (.unregister id) := by
  simp only [execute, unregister, bodyCode]
  rcases m.registry.remove_cases id with ⟨e, fails, -⟩ | h
  · exact absurd fails (faultless.not_fails .remove)
  · rw [h]
    have known : m.directory.contains id = (m.registry.directory.get? id).isSome := rfl
    cases hget : m.registry.directory.get? id with
    | none =>
      rw [hget] at known
      rw [known]
      rfl
    | some c =>
      rw [hget] at known
      rw [known]
      rfl

omit [Journal J] in
theorem query_of_valid {m : Mediator J} (faultless : m.registry.Faultless) {q : Query}
    (valid : q.validate = .ok ()) :
    m.query (some q) = (.ok ((m.directory.search q).map Component.summary),
      { m with registry := m.registry.after m.directory }) := by
  simp only [query, valid]
  rcases m.registry.search_cases q with ⟨e, fails, -⟩ | h
  · exact absurd fails (faultless.not_fails .search)
  · rw [h]
    rfl

theorem query_code {m : Mediator J} (faultless : m.registry.Faultless) (now : Instant)
    (q : Option Query) (pageSize : Option Nat) :
    (m.execute now (.query q pageSize)).1.code = m.bodyCode (.query q pageSize) := by
  cases q with
  | none => rfl
  | some q =>
    simp only [execute, queryPage, bodyCode]
    cases hvalid : q.validate with
    | error e =>
      simp only [query, hvalid]
      rfl
    | ok _ =>
      rw [query_of_valid faultless hvalid]
      simp only [replying, Reply.ofPage, isEmpty_openPage, List.isEmpty_map]

theorem queryNext_code {m : Mediator J} (filled : m.cursors.Filled) (now : Instant)
    (cursor : String) : (m.execute now (.queryNext cursor)).1.code =
      m.bodyCode (.queryNext cursor) := by
  simp only [execute, bodyCode]
  cases hget : m.cursors.cursors.get? cursor with
  | none =>
    rw [queryNext_of_none hget]
    rfl
  | some p =>
    unfold queryNext
    cases hnext : m.cursors.next cursor with
    | error e =>
      unfold CursorTable.next at hnext
      rw [hget] at hnext
      simp only at hnext
      split at hnext <;> cases hnext
    | ok result =>
      obtain ⟨page, cursors⟩ := result
      have hpage : page.isEmpty = false := by simpa [Page.isEmpty] using (filled.next hnext).1
      simp only [replying, Reply.ofPage, hpage]
      rfl

theorem subscribe_code (now : Instant) (m : Mediator J) (r : SubscribeRequest) :
    (m.execute now (.subscribe r)).1.code = m.bodyCode (.subscribe r) := by
  simp only [execute, subscribe, bodyCode, Callback.ofText]
  cases Callback.ofText? r.callback with
  | none => rfl
  | some callback =>
    cases r.query with
    | none => rfl
    | some q =>
      cases hvalid : q.validate with
      | error e => simp only [hvalid]; rfl
      | ok _ => simp only [hvalid]; rfl

theorem unsubscribe_code (now : Instant) (m : Mediator J) (id : SubscriptionId) :
    (m.execute now (.unsubscribe id)).1.code = m.bodyCode (.unsubscribe id) := by
  simp only [execute, unsubscribe, bodyCode, SubscriptionTable.remove]
  cases hfind : m.subscriptions.list.find? fun s => s.id = id with
  | none =>
    have hany : (m.subscriptions.list.any fun s => s.id = id) = false := by simpa using hfind
    rw [hany]
    rfl
  | some s =>
    have hid := List.find?_some hfind
    have hany : (m.subscriptions.list.any fun s => s.id = id) = true :=
      List.any_eq_true.mpr ⟨s, List.mem_of_find?_eq_some hfind, hid⟩
    rw [hany]
    rfl

theorem renew_code {m : Mediator J} (faultless : m.registry.Faultless) (now : Instant)
    (id : ComponentId) (lease : Lease) :
    (m.execute now (.renewLease id lease)).1.code = m.bodyCode (.renewLease id lease) := by
  simp only [execute, renew, bodyCode]
  rcases m.registry.contains_cases id with ⟨e, fails, -⟩ | h
  · exact absurd fails (faultless.not_fails .contains)
  · rw [h, show m.registry.directory.contains id = m.directory.contains id from rfl]
    cases m.directory.contains id <;> rfl

theorem execute_code {m : Mediator J} (faultless : m.registry.Faultless)
    (filled : m.cursors.Filled) (now : Instant) (body : RequestBody) :
    (m.execute now body).1.code = m.bodyCode body := by
  cases body with
  | lookUp r => rfl
  | register c lease => exact register_code faultless now c lease
  | unregister id => exact unregister_code faultless now id
  | update id delta mode lease => exact update_code faultless now id delta mode lease
  | query q pageSize => exact query_code faultless now q pageSize
  | queryNext cursor => exact queryNext_code filled now cursor
  | subscribe r => exact subscribe_code now m r
  | unsubscribe id => exact unsubscribe_code now m id
  | renewLease id lease => exact renew_code faultless now id lease

theorem handle_code {m : Mediator J} (faultless : m.registry.Faultless)
    (filled : m.cursors.Filled) (now : Instant) (n : Node) :
    (m.handle now n).1.valueOf? "code" = (m.replyCode? n).map ReplyCode.name := by
  unfold handle replyCode?
  split
  · rfl
  · show (Reply.toNode _).valueOf? "code" = _
    rw [Reply.toNode, Node.valueOf?_branch_cons]
    simp only [Node.name_leaf, Node.value_leaf, if_true]
    unfold handleRequest
    cases hread : Request.ofNode n with
    | error e => rfl
    | ok r =>
      obtain ⟨target, body⟩ := r
      cases target with
      | none => cases body <;> rfl
      | some target =>
        simp only [checkTarget]
        by_cases htarget : target = m.id
        · simp only [htarget, if_true, execute_code faultless filled, Option.map_some]
        · simp only [htarget, if_false]
          rfl

/-! ## Every refusal -/

/-- Whether a service comes of another by messages that it answers and by what happens to it
otherwise. -/
inductive Reaches (start : Mediator J) : Mediator J → Prop
  | refl : Reaches start start
  | message {m : Mediator J} (h : Reaches start m) (now : Instant) (n : Node) :
      Reaches start (m.handle now n).2
  | operation {m : Mediator J} (h : Reaches start m) (now : Instant) (o : Operation) :
      Reaches start (m.perform now o)

/-- The operation as which a body is carried out. A lookup changes nothing. -/
def operation? : RequestBody → Option Operation
  | .lookUp _ => none
  | .register c lease => some (.register c lease)
  | .unregister id => some (.unregister id)
  | .update id delta mode lease => some (.update id delta mode lease)
  | .query q pageSize => some (.queryPage q pageSize)
  | .queryNext cursor => some (.queryNext cursor)
  | .subscribe r => some (.subscribe r)
  | .unsubscribe id => some (.unsubscribe id)
  | .renewLease id lease => some (.renew id lease)

theorem execute_perform (now : Instant) (m : Mediator J) (body : RequestBody) :
    (m.execute now body).2 = (operation? body).elim m (m.perform now) := by
  cases body with
  | subscribe r =>
    show _ = m.perform now (.subscribe r)
    rw [perform_subscribe, execute, replying]
  | unsubscribe id =>
    show _ = m.perform now (.unsubscribe id)
    rw [perform_unsubscribe, execute, replying]
  | _ => rfl

/-- A message is carried out as one operation at most. -/
theorem handle_perform (now : Instant) (m : Mediator J) (n : Node) :
    (m.handle now n).2 = m ∨ ∃ r o, Request.ofNode n = .ok r ∧ operation? r.body = some o ∧
      (m.handle now n).2 = m.perform now o := by
  have handled : (m.handleRequest now n).2 = m ∨ ∃ r o, Request.ofNode n = .ok r ∧
      operation? r.body = some o ∧ (m.handleRequest now n).2 = m.perform now o := by
    unfold handleRequest
    split
    · exact .inl rfl
    · next r hread =>
      split
      · exact .inl rfl
      · rw [execute_perform]
        cases hop : operation? r.body with
        | none => exact .inl rfl
        | some o => exact .inr ⟨r, o, hread, hop, rfl⟩
  unfold handle
  split
  · exact .inl rfl
  · exact handled

theorem Reaches.exists_history {start m : Mediator J} (h : start.Reaches m) :
    ∃ history, m = start.after history := by
  have snoc (history : List (Instant × Operation)) (now : Instant) (o : Operation) :
      (start.after history).perform now o = start.after (history ++ [(now, o)]) := by
    simp [after]
  induction h with
  | refl => exact ⟨[], rfl⟩
  | @message m h now n ih =>
    obtain ⟨history, rfl⟩ := ih
    rcases (start.after history).handle_perform now n with hsame | ⟨_, o, -, -, hdone⟩
    · exact ⟨history, hsame⟩
    · exact ⟨_, hdone.trans (snoc history now o)⟩
  | operation h now o ih =>
    obtain ⟨history, rfl⟩ := ih
    exact ⟨_, snoc history now o⟩

/-- Whatever has been asked of a service and has happened to it, a message that is answered with any
code but that of success leaves it as it was, but for the number of calls to the registry. The code
is known from the state before and the message, and it is that of a failure for all messages that
are `Refused`. -/
theorem refusals_inert {settings : MediatorSettings} {journal : J} {cursorNames : Nat → String}
    {subscriptionNames : Nat → SubscriptionId} {m : Mediator J}
    (reached : (new settings journal cursorNames subscriptionNames).Reaches m) (now : Instant)
    (n : Node) :
    (∀ code, (m.handle now n).1.valueOf? "code" = some (ReplyCode.name code) →
      code ≠ .noError → m.Untouched (m.handle now n).2) ∧
    (m.handle now n).1.valueOf? "code" = (m.replyCode? n).map ReplyCode.name ∧
    (m.Refused n → ∃ code, m.replyCode? n = some code ∧ code ≠ .noError) := by
  obtain ⟨history, rfl⟩ := reached.exists_history
  let start := new settings journal cursorNames subscriptionNames
  have faultless : (start.after history).registry.Faultless :=
    ((matched_new settings journal cursorNames subscriptionNames).after history).faultless
  have turns : start.cursors.Turns (fun _ => True) (start.after history).cursors :=
    turns_after (m := start) Directory.named_empty fun _ _ _ _ => trivial
  have filled : (start.after history).cursors.Filled :=
    turns.filled (CursorTable.sound_new _ _) (CursorTable.filled_new _ _)
  exact ⟨fun code => untouched_handle filled, handle_code faultless filled now n,
    Refused.exists_code⟩

/-- An update of the constant attribute of a desk, with a new lease, leaves the desk and its lease
as they were. -/
theorem refusals_inert_constant :
    let start : Mediator NoJournal := new {} ⟨⟩ Text.ofNat fun n => ⟨.supply 0 n⟩
    let room (value : String) : Attributes := Attributes.ofList [.valued "room" (.string value)]
    let desk : Component := { id := ⟨"desk"⟩, kind := .widget, constant := room "hall" }
    let m := (start.handle ⟨0⟩ (Request.toNode ⟨some start.id, .register desk none⟩)).2
    let n := Request.toNode
      ⟨some start.id, .update ⟨"desk"⟩ (room "attic") .add (some (.ofMillis 5000))⟩
    start.Reaches m ∧ m.directory.get? ⟨"desk"⟩ = some desk ∧
      (m.handle ⟨1⟩ n).1.valueOf? "code" = some "invalidAttribute" ∧
      m.Untouched (m.handle ⟨1⟩ n).2 := by
  intro start room desk m n
  have reached : start.Reaches m := .message .refl _ _
  have known : m.directory.get? ⟨"desk"⟩ = some desk := by decide +kernel
  have hcode : (m.handle ⟨1⟩ n).1.valueOf? "code" = some "invalidAttribute" := by decide +kernel
  exact ⟨reached, known, hcode,
    (refusals_inert reached ⟨1⟩ n).1 .invalidAttribute hcode (by decide)⟩

end Journaled

end Mediator

end Rendezvous
