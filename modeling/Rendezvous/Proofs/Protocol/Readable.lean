import Mathlib.Algebra.Order.BigOperators.Group.List
import Rendezvous.Proofs.Protocol.Connection
import Rendezvous.Proofs.Protocol.Refusal
import Rendezvous.Proofs.Text.Uuid
import Rendezvous.Proofs.Transport.Width
/-!
# Replies that can be read

Who asks the service reads lines up to a limit, and the service writes lines of any length. No reply
is too deep to be read, so a reply is read as it is exactly if its line is not too long
(`Mediator.readable_iff_short`). A reply that lists no components is always short, whatever the state
of the service. A page is as long as the components that are on it, and if no page size is set,
these are all that are found: two registrations, each of which fits on a line, can make a reply that
does not.
-/

namespace Rendezvous

open Framing

/-! ## How deep replies are -/

namespace Node

theorem depth_le_of_children {n : Node} {depth : Nat} (h : ∀ c ∈ n.children, c.toJson.depth ≤ depth) :
    n.toJson.depth ≤ depth + 2 := by
  rw [depth_toJson]
  split
  · omega
  · exact Nat.add_le_add_right (depthOfItems_le.mpr h) 2

theorem depth_leaf (name v : String) : (leaf name v).toJson.depth = 1 := by
  rw [depth_toJson]
  exact if_pos rfl

end Node

theorem Summary.depth_toNode (s : Summary) : s.toNode.toJson.depth ≤ 3 := by
  refine Node.depth_le_of_children fun c hc => ?_
  simp only [toNode, Node.children_branch, List.mem_cons, List.not_mem_nil, or_false] at hc
  rcases hc with rfl | rfl | rfl | rfl | rfl | rfl <;> exact (Node.depth_leaf _ _).le

theorem Lease.depth_toNode (l : Lease) : l.toNode.toJson.depth ≤ 3 := by
  refine Node.depth_le_of_children fun c hc => ?_
  rw [List.mem_singleton.mp hc]
  exact (Node.depth_leaf _ _).le

theorem Page.depth_toNode (p : Page) : p.toNode.toJson.depth ≤ 5 := by
  obtain ⟨components, cursor, remaining⟩ := p
  refine Node.depth_le_of_children fun c hc => ?_
  rcases List.mem_append.mp hc with hc | hc
  · obtain ⟨s, -, rfl⟩ := List.mem_map.mp hc
    exact s.depth_toNode
  · rcases List.mem_cons.mp hc with rfl | hc
    · exact (Node.depth_leaf _ _).le.trans (by decide)
    · cases cursor with
      | none => cases hc
      | some cursor =>
        rw [List.mem_singleton.mp hc]
        exact (Node.depth_leaf _ _).le.trans (by decide)

theorem Reply.depth_toNode (r : Reply) : r.toNode.toJson.depth ≤ 7 := by
  obtain ⟨code, body⟩ := r
  refine Node.depth_le_of_children fun c hc => ?_
  rcases List.mem_cons.mp hc with rfl | hc
  · exact (Node.depth_leaf _ _).le.trans (by decide)
  · cases body with
    | empty => cases hc
    | discoverer s =>
      rw [List.mem_singleton.mp hc]
      exact s.depth_toNode.trans (by decide)
    | lease l =>
      rw [List.mem_singleton.mp hc]
      exact l.depth_toNode.trans (by decide)
    | components p =>
      rw [List.mem_singleton.mp hc]
      exact p.depth_toNode
    | subscribed id =>
      rw [List.mem_singleton.mp hc]
      exact (Node.depth_leaf _ _).le.trans (by decide)

theorem depth_pongReply (id : ComponentId) : (pongReply id).toJson.depth ≤ 3 := by
  refine Node.depth_le_of_children fun c hc => ?_
  rw [List.mem_singleton.mp hc]
  exact (Node.depth_leaf _ _).le

/-- A message that is not too deep is read from its line, whatever follows, if that is not too
long. -/
theorem Framing.delivery_bytes {n : Node} (h : n.toJson.depth ≤ Json.maxDepth) (endpoint : Endpoint)
    (more : List UInt8) :
    delivery endpoint (bytes n ++ more) =
      if (content n).length ≤ defaultLimit then .ok n
      else .error (.messageTooLarge defaultLimit) := by
  rw [bytes_append, delivery]
  split_ifs with hshort
  · rw [receive_of_spoken (endsBefore_content n more) hshort (content_spoken n), trim_content,
      ofLine_content, if_pos h]
    rfl
  · rw [receive_of_long (endsBefore_content n more) (Nat.lt_of_not_le hshort)]
    rfl

/-! ## How long replies are -/

/-- Whether a reply lists components, or the service itself. -/
def ReplyBody.Lists : ReplyBody → Prop
  | discoverer _ | components _ => True
  | _ => False

/-- Whether a request asks for components, or for the service itself. -/
def RequestBody.Lists : RequestBody → Prop
  | lookUp _ | query _ _ | queryNext _ => True
  | _ => False

theorem ReplyCode.width_name (code : ReplyCode) : Text.width code.name ≤ 20 := by
  cases code <;> decide

theorem Uuid.plain_hexDigits {n count : Nat} {c : Char} (h : c ∈ hexDigits n count) :
    Text.Plain c := by
  have hall : ∀ d < 16, Text.Plain (hexDigit d) := by decide
  induction count generalizing n with
  | zero => cases h
  | succ count ih =>
    rcases List.mem_append.mp h with h | h
    · exact ih h
    · rw [List.mem_singleton.mp h]
      exact hall _ (Nat.mod_lt _ (by decide))

theorem SubscriptionId.width_text (id : SubscriptionId) : Text.width id.text = 42 := by
  have hplain : ∀ c ∈ id.text.toList, Text.Plain c := by
    intro c hc
    rw [text, String.toList_ofList, Uuid.toList_text] at hc
    rcases List.mem_append.mp hc with hc | hc
    · exact (by simp [mark, Text.Plain] : ∀ c ∈ mark, Text.Plain c) c hc
    · by_cases hhyphen : c = '-'
      · rw [hhyphen]
        decide
      · have hdigit : c ∈ Uuid.hexDigits id.uuid.number.val 32 := by
          rw [← Uuid.filter_grouped fun c => Uuid.ne_hyphen_of_mem]
          exact List.mem_filter.mpr ⟨hc, by simpa using hhyphen⟩
        exact Uuid.plain_hexDigits hdigit
  have hlength : id.text.length = 40 := by
    rw [← String.length_toList, text, String.toList_ofList, Uuid.toList_text, List.length_append,
      Uuid.length_grouped (Uuid.length_hexDigits _ _)]
    rfl
  rw [Text.width_of_plain hplain, hlength]

/-- A reply that lists nothing is short. -/
theorem Reply.length_content_le {r : Reply} (h : ¬ r.body.Lists) :
    (content r.toNode).length ≤ 300 := by
  have hcode := r.code.width_name
  have hreply : Text.width tag = 7 := by decide
  have hfield : Text.width "code" = 6 := by decide
  unfold toNode
  rw [length_content_branch _ (List.cons_ne_nil _ _), List.map_cons, List.sum_cons,
    length_content_leaf, hreply, hfield]
  obtain ⟨code, body⟩ := r
  cases body with
  | empty =>
    rw [List.map_nil, List.sum_nil]
    omega
  | discoverer s => exact absurd trivial h
  | components p => exact absurd trivial h
  | lease l =>
    have hmillis : Text.width (Text.ofNat l.duration.wireMillis) ≤ 22 :=
      Text.width_ofNat_le (Nat.mod_lt _ (by decide))
    have htag : Text.width Lease.tag = 7 := by decide
    have hduration : Text.width "durationMs" = 12 := by decide
    rw [List.map_singleton, List.sum_singleton, Lease.toNode,
      length_content_branch _ (List.cons_ne_nil _ _), List.map_singleton, List.sum_singleton,
      length_content_leaf, htag, hduration]
    omega
  | subscribed id =>
    have hfield' : Text.width "subscriptionId" = 16 := by decide
    rw [List.map_singleton, List.sum_singleton, length_content_leaf, hfield', id.width_text]
    omega

namespace Mediator

section Answers

variable {J : Type} [Journal J]

omit [Journal J] in
theorem not_lists_replying {α : Type} {reply : α → Reply} (h : ∀ a, ¬ (reply a).body.Lists)
    (answer : Answer J α) : ¬ (replying reply answer).1.body.Lists := by
  unfold replying
  cases answer.1 with
  | ok a => exact h a
  | error e => exact fun hlists => hlists

/-- Nothing is listed that has not been asked for. -/
theorem lists_of_execute {now : Instant} {m : Mediator J} {body : RequestBody}
    (h : (m.execute now body).1.body.Lists) : body.Lists := by
  cases body with
  | lookUp | query | queryNext => trivial
  | register | unregister | subscribe | unsubscribe | renewLease =>
    refine absurd h (not_lists_replying (fun _ => ?_) _)
    exact fun hlists => hlists
  | update id delta mode lease =>
    refine absurd h (not_lists_replying (fun l hlists => ?_) _)
    cases l <;> exact hlists

theorem lists_of_handleRequest {now : Instant} {m : Mediator J} {n : Node}
    (h : (m.handleRequest now n).1.body.Lists) :
    ∃ r, Request.ofNode n = .ok r ∧ r.body.Lists := by
  unfold handleRequest at h
  split at h
  · exact absurd h fun hlists => hlists
  · next r hread =>
    split at h
    · exact absurd h fun hlists => hlists
    · exact ⟨r, hread, lists_of_execute h⟩

/-- The reply to a message that asks for no components is short in every state of the service. -/
theorem length_content_handle_le (now : Instant) (m : Mediator J) (n : Node) :
    (content (m.handle now n).1).length ≤ 300 ∨ n.name = pingTag ∨
      ∃ r, Request.ofNode n = .ok r ∧ r.body.Lists := by
  unfold handle
  split_ifs with hping
  · exact .inr (.inl hping)
  · by_cases hlists : (m.handleRequest now n).1.body.Lists
    · exact .inr (.inr (lists_of_handleRequest hlists))
    · exact .inl (Reply.length_content_le hlists)

theorem depth_handle (now : Instant) (m : Mediator J) (n : Node) :
    (m.handle now n).1.toJson.depth ≤ 7 := by
  unfold handle
  split_ifs
  · exact (depth_pongReply _).trans (by decide)
  · exact Reply.depth_toNode _

theorem depth_garbledReply : garbledReply.toJson.depth ≤ 7 := Reply.depth_toNode _

theorem depth_answerLine (now : Instant) (m : Mediator J) (line : List UInt8) :
    (m.answerLine now line).1.toJson.depth ≤ 7 := by
  unfold answerLine
  split
  · exact depth_handle _ _ _
  · exact depth_garbledReply

/-- No reply is too deep to be read. -/
theorem depth_serve {clock : Nat → Instant} {m : Mediator J} {stream : List UInt8} {reply : Node}
    (h : reply ∈ (m.serve clock stream).1) : reply.toJson.depth ≤ 7 := by
  rw [serve, serveWithin_lines] at h
  rcases List.mem_append.mp h with h | h
  · obtain ⟨k, hk, rfl⟩ := List.mem_mapIdx.mp h
    exact depth_answerLine _ _ _
  · split_ifs at h
    · rw [List.mem_singleton.mp h]
      exact depth_garbledReply
    · cases h

/-! ## A page that is too long -/

variable {m : Mediator J}

/-- What a request comes to that is for this service and can be read. -/
theorem handle_request (now : Instant) {body : RequestBody} (proper : body.Proper)
    (numeric : body.Numeric) :
    m.handle now (Request.toNode ⟨some m.id, body⟩) =
      ((m.execute now body).1.toNode, (m.execute now body).2) := by
  have hread : Request.ofNode (Request.toNode ⟨some m.id, body⟩) = .ok ⟨some m.id, body⟩ :=
    Request.ofNode_toNode proper numeric
  have htarget : m.checkTarget ⟨some m.id, body⟩ = .ok () := if_pos rfl
  have hname : ¬ (Request.toNode ⟨some m.id, body⟩).name = pingTag := by
    show ¬ Request.tag = pingTag
    decide
  rw [handle, if_neg hname, handleRequest, hread]
  simp only [htarget]

/-- A message that registers a component. -/
def registration (service : ComponentId) (c : Component) : Node :=
  Request.toNode ⟨some service, .register c none⟩

/-- A message that asks for all components of a kind. -/
def inquiry (service : ComponentId) (kind : ComponentKind) : Node :=
  Request.toNode ⟨some service, .query (some (.kindIs kind)) none⟩

theorem handle_registration (now : Instant) (faultless : m.registry.Faultless) {c : Component}
    (proper : c.Proper) (numeric : .nan ∉ c.doubles) :
    (m.handle now (registration m.id c)).2.directory = m.directory.apply (.insert c) ∧
      (m.handle now (registration m.id c)).2.registry.Faultless ∧
      (m.handle now (registration m.id c)).2.settings = m.settings := by
  obtain ⟨d, hinsert, hadd⟩ := Registry.add_of_faultless faultless proper.named
  have hproper : RequestBody.Proper (.register c none) := ⟨proper, fun _ h => by cases h⟩
  rw [registration, handle_request now hproper numeric]
  simp only [execute, replying, register, hadd, directory, notify_registry, record_registry,
    Registry.after_directory]
  exact ⟨(Directory.apply_insert hinsert).symm, faultless.after d, rfl⟩

/-- Where no page size is set, all that are found are on one page. -/
theorem handle_inquiry (now : Instant) (faultless : m.registry.Faultless) (kind : ComponentKind)
    (unpaged : m.settings.defaultPageSize = 0) :
    (m.handle now (inquiry m.id kind)).1 =
      (Reply.ofPage (.whole ((m.directory.search (.kindIs kind)).map Component.summary))).toNode := by
  have hvalid : (Query.kindIs kind).validate = .ok () := rfl
  have hsound : (Query.kindIs kind).Sound := Query.validate_eq_ok.mp hvalid
  have hnumber : Value.string kind.name ≠ .float .nan := by
    intro h
    cases h
  have hnumeric : (Query.kindIs kind).Numeric := Query.every_rule.mpr hnumber
  have hproper : RequestBody.Proper (.query (some (.kindIs kind)) none) :=
    ⟨fun p hp => by cases hp; exact hsound, fun _ h => by cases h⟩
  rw [inquiry, handle_request now hproper fun p hp => by cases hp; exact hnumeric]
  simp only [execute, replying, queryPage,
    query_of_valid faultless hvalid]
  simp [CursorTable.openPage, unpaged]

/-- A message that can be read is answered, and then what follows it. -/
theorem serve_bytes (clock : Nat → Instant) (m : Mediator J) {n : Node}
    (fits : Fits defaultLimit n) (rest : List UInt8) :
    (m.serve clock (bytes n ++ rest)).1 = (m.handle (clock 0) n).1 ::
      ((m.handle (clock 0) n).2.serve (fun k => clock (k + 1)) rest).1 := by
  have hread : reading (content n) = .ok (some n) := by
    rw [reading, trim_content, content, Node.ofBytes?_compact, if_pos fits.depth]
  rw [bytes_append, serve, serveWithin_of_spoken clock m (endsBefore_content n rest) fits.length
    (content_spoken n), answerLine, hread]
  rfl

end Answers

/-- The names of the hosts on a page are part of the reply. -/
theorem sum_width_le (p : Page) :
    (p.components.map fun s => Text.width s.hostname).sum ≤
      (content (Reply.ofPage p).toNode).length := by
  have hsummary : ∀ s ∈ p.components,
      Text.width s.hostname ≤ (content s.toNode).length + 1 := by
    intro s hs
    rw [Summary.toNode, length_content_branch _ (List.cons_ne_nil _ _)]
    simp only [List.map_cons, List.sum_cons, length_content_leaf]
    omega
  have hpage : (p.components.map fun s => (content s.toNode).length + 1).sum ≤
      (content p.toNode).length := by
    rw [Page.toNode, length_content_branch _ (by simp), List.map_append, List.sum_append,
      List.map_map]
    simp only [Function.comp_def]
    omega
  have hreply : (content p.toNode).length ≤ (content (Reply.ofPage p).toNode).length := by
    rw [Reply.toNode, length_content_branch _ (List.cons_ne_nil _ _), Reply.ofPage]
    simp only [List.map_cons, List.map_nil, List.sum_cons, List.sum_nil]
    omega
  exact ((List.sum_le_sum hsummary).trans hpage).trans hreply

/-- A component whose host has a long name. -/
def outpost (name : String) (length : Nat) : Component :=
  { id := ⟨name⟩, kind := .widget, hostname := String.ofList (List.replicate length 'x') }

theorem width_hostname (name : String) (length : Nat) :
    Text.width (outpost name length).hostname = length + 2 := by
  have hplain : ∀ c ∈ (outpost name length).hostname.toList, Text.Plain c := by
    intro c hc
    rw [outpost, String.toList_ofList] at hc
    rw [List.eq_of_mem_replicate hc]
    decide
  rw [Text.width_of_plain hplain, outpost, String.length_ofList, List.length_replicate]

theorem toNode_outpost (name : String) (length : Nat) :
    (outpost name length).toNode = .branch "component"
      [.leaf "id" name, .leaf "classname" "", .leaf "hostname" (outpost name length).hostname,
        .leaf "hostAddress" "127.0.0.1", .leaf "port" (Text.ofNat 0), .leaf "type" "widget",
        .leaf "version" "1.0", .branch "constantAttributes" [], .branch "nonConstantAttributes" [],
        .branch "callbacks" [], .branch "services" [], .branch "subscribers" []] := rfl

theorem registration_eq (service : ComponentId) (c : Component) :
    registration service c =
      .branch "request" [.leaf "target" service.text, .branch "register" [c.toNode]] := rfl

theorem length_registration {name : String} {length : Nat} (hname : Text.width name ≤ 10) :
    (content (registration ⟨"discoverer"⟩ (outpost name length))).length ≤ length + 1000 := by
  have hhostname := width_hostname name length
  have hport : Text.width (Text.ofNat 0) ≤ 22 := Text.width_ofNat_le (by decide)
  have hwords : ∀ s ∈ ["request", "target", "discoverer", "register", "component", "id",
      "classname", "", "hostname", "hostAddress", "127.0.0.1", "port", "type", "widget",
      "version", "1.0", "constantAttributes", "nonConstantAttributes", "callbacks", "services",
      "subscribers"], Text.width s ≤ 24 := by decide
  simp only [List.forall_mem_cons] at hwords
  simp (disch := simp) only [registration_eq, toNode_outpost, length_content_branch,
    length_content_leaf, length_content_empty, List.map_cons, List.map_nil, List.sum_cons,
    List.sum_nil, hhostname]
  omega

theorem depth_registration (service : ComponentId) (name : String) (length : Nat) :
    (registration service (outpost name length)).toJson.depth ≤ 7 := by
  have hcomponent : (outpost name length).toNode.toJson.depth ≤ 3 := by
    refine Node.depth_le_of_children fun c hc => ?_
    rw [toNode_outpost] at hc
    simp only [Node.children_branch, List.mem_cons, List.not_mem_nil, or_false] at hc
    rcases hc with rfl | rfl | rfl | rfl | rfl | rfl | rfl | rfl | rfl | rfl | rfl | rfl
    all_goals
      rw [Node.depth_toJson]
      exact (if_pos rfl).le
  have hbody : (Node.branch "register" [(outpost name length).toNode]).toJson.depth ≤ 5 :=
    Node.depth_le_of_children fun c hc => by rwa [List.mem_singleton.mp hc]
  refine Node.depth_le_of_children fun c hc => ?_
  rw [registration_eq] at hc
  simp only [Node.children_branch, List.mem_cons, List.not_mem_nil, or_false] at hc
  rcases hc with rfl | rfl
  · exact (Node.depth_leaf _ _).le.trans (by decide)
  · exact hbody

theorem fits_registration {name : String} {length : Nat} (hname : Text.width name ≤ 10)
    (hlength : length + 1000 ≤ defaultLimit) :
    Fits defaultLimit (registration ⟨"discoverer"⟩ (outpost name length)) where
  length := (length_registration hname).trans hlength
  depth := (depth_registration _ name length).trans (by decide)

theorem fits_inquiry : Fits defaultLimit (inquiry ⟨"discoverer"⟩ .widget) :=
  ⟨by decide +kernel, by decide +kernel⟩

theorem proper_outpost {name : String} (length : Nat) (filled : Text.isBlankText name = false) :
    (outpost name length).Proper where
  named := filled
  constant := ⟨Attributes.keyed_empty, fun _ h => absurd h List.not_mem_nil⟩
  nonConstant := ⟨Attributes.keyed_empty, fun _ h => absurd h List.not_mem_nil⟩

theorem nan_not_mem_outpost (name : String) (length : Nat) :
    Binary64.nan ∉ (outpost name length).doubles := List.not_mem_nil

/-- Two outposts are both found among the widgets. -/
theorem mem_search_outposts (length : Nat) :
    let d := ((∅ : Directory).apply (.insert (outpost "a" length))).apply
      (.insert (outpost "b" length))
    outpost "a" length ∈ d.search (.kindIs .widget) ∧
      outpost "b" length ∈ d.search (.kindIs .widget) := by
  intro d
  have keyed (name : String) (c : Component)
      (h : Directory.Change.insert (outpost name length) = .insert c) : c.Keyed := by
    cases h
    exact ⟨Attributes.keyed_empty, Attributes.keyed_empty⟩
  have indexed : d.Indexed := (Directory.indexed_empty.apply (keyed "a")).apply (keyed "b")
  have holds (name : String) :
      (Query.kindIs .widget).verdict (outpost name length) = .holds :=
    Comparison.evaluate_equal_string.mpr rfl
  have get? {e : Directory} {name : String} (filled : Text.isBlankText name = false)
      (id : ComponentId) : (e.apply (.insert (outpost name length))).get? id =
        if id = ⟨name⟩ then some (outpost name length) else e.get? id := by
    have hinsert := Directory.insert_eq_ok (d := e) (c := outpost name length) |>.mpr
      ⟨filled, rfl, rfl⟩
    rw [Directory.apply_insert hinsert]
    exact Directory.get?_insert hinsert id
  have hfilledA : Text.isBlankText "a" = false := by decide
  have hfilledB : Text.isBlankText "b" = false := by decide
  have hne : (outpost "a" length).id ≠ ⟨"b"⟩ := (by decide : (⟨"a"⟩ : ComponentId) ≠ ⟨"b"⟩)
  refine ⟨(Directory.mem_search indexed _ _).mpr ⟨?_, holds "a"⟩,
    (Directory.mem_search indexed _ _).mpr ⟨?_, holds "b"⟩⟩
  · rw [get? hfilledB, if_neg hne, get? hfilledA]
    exact if_pos rfl
  · rw [get? hfilledB]
    exact if_pos rfl

/-- Two components that are found are both on the page. -/
theorem width_add_width_le {found : List Component} {a b : Component} (ha : a ∈ found)
    (hb : b ∈ found) (hne : a ≠ b) :
    Text.width a.hostname + Text.width b.hostname ≤
      (content (Reply.ofPage (.whole (found.map Component.summary))).toNode).length := by
  have hpair : [a, b].Nodup := by simp [hne]
  have hsubset : [a, b] ⊆ found := by simp [ha, hb]
  obtain ⟨both, hperm, hsublist⟩ := List.subperm_of_subset hpair hsubset
  have hsum := (hsublist.map fun c : Component => Text.width c.hostname).sum_le_sum
    (by simp)
  rw [(hperm.map fun c : Component => Text.width c.hostname).sum_eq] at hsum
  have hpage := sum_width_le (.whole (found.map Component.summary))
  rw [Page.whole, List.map_map] at hpage
  refine le_trans ?_ (hsum.trans hpage)
  simp

/-- There are requests, each of which fits on a line, of which the last one gets a reply that does
not. -/
theorem exists_unreadable :
    ∃ stream : List UInt8, (∀ line ∈ lines stream, line.length ≤ defaultLimit) ∧
      ∀ {J : Type} [Journal J] (journal : J) (cursorNames : Nat → String)
        (subscriptionNames : Nat → SubscriptionId) (clock : Nat → Instant),
        ∃ reply ∈ ((new {} journal cursorNames subscriptionNames).serve clock stream).1,
          defaultLimit < (content reply).length := by
  obtain ⟨length, hlow, hhigh⟩ : ∃ length, length + 1000 ≤ defaultLimit ∧
      defaultLimit < length + length := ⟨600000, by decide, by decide⟩
  let a := outpost "a" length
  let b := outpost "b" length
  let service : ComponentId := ⟨"discoverer"⟩
  let requests := [registration service a, registration service b, inquiry service .widget]
  have hfitsA : Fits defaultLimit (registration service a) := fits_registration (by decide) hlow
  have hfitsB : Fits defaultLimit (registration service b) := fits_registration (by decide) hlow
  refine ⟨requests.flatMap bytes, ?_, ?_⟩
  · rw [lines_bytes]
    intro line hline
    simp only [requests, List.map_cons, List.map_nil, List.mem_cons, List.not_mem_nil,
      or_false] at hline
    rcases hline with rfl | rfl | rfl
    · exact hfitsA.length
    · exact hfitsB.length
    · exact fits_inquiry.length
  intro J _ journal cursorNames subscriptionNames clock
  let start := new {} journal cursorNames subscriptionNames
  obtain ⟨hdirectoryA, hfaultlessA, hsettingsA⟩ := start.handle_registration (clock 0)
    (fun _ _ => rfl) (proper_outpost length (by decide : Text.isBlankText "a" = false))
    (nan_not_mem_outpost "a" length)
  let first := (start.handle (clock 0) (registration service a)).2
  have hfirst : first.id = service := congrArg (fun s => ComponentId.mk s.id) hsettingsA
  obtain ⟨hdirectoryB, hfaultlessB, hsettingsB⟩ := first.handle_registration (clock 1)
    hfaultlessA (proper_outpost length (by decide : Text.isBlankText "b" = false))
    (nan_not_mem_outpost "b" length)
  rw [hfirst] at hdirectoryB hfaultlessB hsettingsB
  let second := (first.handle (clock 1) (registration service b)).2
  have hsettings : second.settings = {} := hsettingsB.trans hsettingsA
  have hsecond : second.id = service := congrArg (fun s => ComponentId.mk s.id) hsettings
  have hreply := second.handle_inquiry (clock 2) hfaultlessB .widget (by rw [hsettings])
  rw [hsecond] at hreply
  refine ⟨(second.handle (clock 2) (inquiry service .widget)).1, ?_, ?_⟩
  · have hserved := start.serve_bytes clock hfitsA
      (bytes (registration service b) ++ (bytes (inquiry service .widget) ++ []))
    rw [serve_bytes _ _ hfitsB, serve_bytes _ _ fits_inquiry] at hserved
    have hstream : requests.flatMap bytes = bytes (registration service a) ++
        (bytes (registration service b) ++ (bytes (inquiry service .widget) ++ [])) := rfl
    rw [hstream, hserved]
    exact .tail _ (.tail _ (.head _))
  · have hdirectory : second.directory =
        ((∅ : Directory).apply (.insert a)).apply (.insert b) := by
      show (first.handle (clock 1) (registration service b)).2.directory = _
      rw [hdirectoryB]
      exact congrArg (fun d => Directory.apply d (.insert b)) hdirectoryA
    obtain ⟨hfoundA, hfoundB⟩ := mem_search_outposts length
    have hne : a ≠ b := fun heq => absurd (congrArg Component.id heq)
      (by decide : (⟨"a"⟩ : ComponentId) ≠ ⟨"b"⟩)
    rw [hreply, hdirectory]
    refine Nat.lt_of_lt_of_le ?_ (width_add_width_le hfoundA hfoundB hne)
    rw [width_hostname, width_hostname]
    omega

/-- Whoever has sent something to the service can read the reply, whatever follows it, exactly if it
is not too long, and is told otherwise that it is. In every state a reply is short, unless it was
asked for components or for the service itself. But the components that are found may make a reply
too long: from a new service on, without a page size, there are requests for it each of which fits
on a line. -/
theorem readable_iff_short {J : Type} [Journal J] :
    (∀ (clock : Nat → Instant) (m : Mediator J) (stream : List UInt8) (endpoint : Endpoint)
        (more : List UInt8), ∀ reply ∈ (m.serve clock stream).1,
      delivery endpoint (bytes reply ++ more) =
        if (content reply).length ≤ defaultLimit then .ok reply
        else .error (.messageTooLarge defaultLimit)) ∧
      (∀ (now : Instant) (m : Mediator J) (n : Node),
        (content (m.handle now n).1).length ≤ 300 ∨ n.name = pingTag ∨
          ∃ r, Request.ofNode n = .ok r ∧ r.body.Lists) ∧
      ∃ stream : List UInt8, (∀ line ∈ lines stream, line.length ≤ defaultLimit) ∧
        ∀ (journal : J) (cursorNames : Nat → String) (subscriptionNames : Nat → SubscriptionId)
          (clock : Nat → Instant),
          ∃ reply ∈ ((new {} journal cursorNames subscriptionNames).serve clock stream).1,
            ∀ endpoint more, delivery endpoint (bytes reply ++ more) =
              .error (.messageTooLarge defaultLimit) := by
  have hread {m : Mediator J} {clock : Nat → Instant} {stream : List UInt8} {reply : Node}
      (h : reply ∈ (m.serve clock stream).1) (endpoint : Endpoint) (more : List UInt8) :=
    delivery_bytes ((depth_serve h).trans (by decide)) endpoint more
  refine ⟨fun clock m stream endpoint more reply h => hread h endpoint more,
    length_content_handle_le, ?_⟩
  obtain ⟨stream, hfits, hlong⟩ := exists_unreadable
  refine ⟨stream, hfits, fun journal cursorNames subscriptionNames clock => ?_⟩
  obtain ⟨reply, hreply, hlength⟩ := hlong journal cursorNames subscriptionNames clock
  exact ⟨reply, hreply, fun endpoint more =>
    (hread hreply endpoint more).trans (if_neg (Nat.not_le.mpr hlength))⟩

/-- The reply to a line that is no message. -/
theorem readable_iff_short_garbled :
    let m : Mediator NoJournal := new {} ⟨⟩ Text.ofNat fun n => ⟨.supply 0 n⟩
    garbledReply ∈ (m.serve (fun _ => ⟨0⟩) [120]).1 ∧
      delivery ⟨"hall", 1⟩ (bytes garbledReply ++ []) = .ok garbledReply := by
  intro m
  have hreply : garbledReply ∈ (m.serve (fun _ => ⟨0⟩) [120]).1 := by
    rw [serve, serveWithin_lines]
    decide +kernel
  refine ⟨hreply, ?_⟩
  rw [readable_iff_short.1 (fun _ => ⟨0⟩) m [120] ⟨"hall", 1⟩ [] garbledReply hreply,
    if_pos (by decide +kernel)]

end Mediator

end Rendezvous
