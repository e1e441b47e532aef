import Rendezvous.Proofs.Protocol.Codec
import Rendezvous.Proofs.Query.Codec
import Rendezvous.Protocol.Request
/-!
# The message format

Requests as messages, and with them the whole format: what is read from a message has the properties
that its reader checks, and what has them is read from its own message as it is, unless a double in
it is the absence of a number (`messages_faithful`).
-/

namespace Rendezvous

/-- What a reader of messages and a writer have to do with each other. -/
structure Faithful {ε α : Type} (read : Node → Except ε α) (write : α → Node)
    (Proper Numeric : α → Prop) : Prop where
  read_write : ∀ x, Proper x → Numeric x → read (write x) = .ok x
  proper_of_read : ∀ n x, read n = .ok x → Proper x
  /-- A message that is read may say the same in other words than the one that is written. -/
  reread : ∀ n x, read n = .ok x → Numeric x → read (write x) = read n

theorem Faithful.of {ε α : Type} {read : Node → Except ε α} {write : α → Node}
    {Proper Numeric : α → Prop} (back : ∀ x, Proper x → Numeric x → read (write x) = .ok x)
    (proper : ∀ n x, read n = .ok x → Proper x) : Faithful read write Proper Numeric where
  read_write := back
  proper_of_read := proper
  reread n x hread hnumeric := by rw [hread, back x (proper n x hread) hnumeric]

namespace RequestBody

/-- Whether a body has what its reader demands: a proper component, proper attributes, a sound query
and proper leases, and a page size that fits a word. -/
def Proper : RequestBody → Prop
  | register c lease => c.Proper ∧ ∀ l ∈ lease, l.Proper
  | update _ delta _ lease => delta.Proper ∧ ∀ l ∈ lease, l.Proper
  | query q pageSize => (∀ p ∈ q, p.Sound) ∧ ∀ size ∈ pageSize, size < UInt64.size
  | subscribe r => ∀ p ∈ r.query, p.Sound
  | renewLease _ lease => lease.Proper
  | _ => True

/-- Whether no double in a body is the absence of a number. -/
def Numeric : RequestBody → Prop
  | register c _ => .nan ∉ c.doubles
  | update _ delta _ _ => .nan ∉ delta.doubles
  | query q _ => ∀ p ∈ q, p.Numeric
  | subscribe r => ∀ p ∈ r.query, p.Numeric
  | _ => True

theorem field_eq_ok {α : Type} {x : Except DecodeError α} {a : α} :
    field x = .ok a ↔ x = .ok a := by
  unfold field
  cases x <;> simp [Except.mapError]

theorem idOf_eq_ok {n : Node} {id : ComponentId} :
    idOf n = .ok id ↔ n.valueOf? "id" = some id.text := by
  unfold idOf
  rw [Node.map_eq_ok]
  simp only [field_eq_ok, Node.requireValue_eq_ok]
  constructor
  · rintro ⟨text, htext, rfl⟩
    exact htext
  · intro h
    exact ⟨id.text, h, rfl⟩

theorem sound_of_predicateOf {n : Node} {q : Option Query} (h : predicateOf n = .ok q) :
    ∀ p ∈ q, p.Sound := by
  unfold predicateOf at h
  split at h
  · next tree _ =>
    cases hread : Query.decode tree with
    | error e =>
      rw [hread] at h
      cases h
    | ok p =>
      rw [hread] at h
      cases h
      rintro _ ⟨⟩
      exact (Query.decode_eq_ok.mp hread).2
  · cases h
    simp

theorem predicateOf_eq {n : Node} {q : Option Query} (sound : ∀ p ∈ q, p.Sound)
    (numeric : ∀ p ∈ q, p.Numeric)
    (h : n.child? "predicate" = q.map fun p => .branch "predicate" [p.toNode]) :
    predicateOf n = .ok q := by
  unfold predicateOf
  rw [h]
  cases q with
  | none => rfl
  | some p =>
    have hread : Query.decode p.toNode = .ok p :=
      Query.decode_eq_ok.mpr ⟨Query.ofNode_toNode (numeric p rfl), sound p rfl⟩
    simp only [Option.map_some, Option.bind_some, Node.children_branch, List.head?_cons, hread]

section Proper

variable {n : Node} {b : RequestBody}

theorem proper_of_lookUpOf (h : lookUpOf n = .ok b) : b.Proper := by
  obtain ⟨caller, -, h⟩ := Node.bind_eq_ok.mp h
  obtain ⟨hostAddress, -, h⟩ := Node.bind_eq_ok.mp h
  obtain ⟨port, -, h⟩ := Node.bind_eq_ok.mp h
  cases h
  trivial

theorem proper_of_registerOf (h : registerOf n = .ok b) : b.Proper := by
  obtain ⟨child, -, h⟩ := Node.bind_eq_ok.mp h
  obtain ⟨c, hc, h⟩ := Node.bind_eq_ok.mp h
  obtain ⟨lease, hlease, h⟩ := Node.bind_eq_ok.mp h
  cases h
  exact ⟨Component.proper_of_ofNode (field_eq_ok.mp hc),
    Lease.proper_of_childOf (field_eq_ok.mp hlease)⟩

theorem proper_of_updateOf (h : updateOf n = .ok b) : b.Proper := by
  obtain ⟨id, -, h⟩ := Node.bind_eq_ok.mp h
  obtain ⟨delta, hdelta, h⟩ := Node.bind_eq_ok.mp h
  have hproper : delta.Proper := Component.proper_of_attributesOf (field_eq_ok.mp hdelta)
  dsimp only at h
  split at h
  all_goals
    obtain ⟨mode, -, h⟩ := Node.bind_eq_ok.mp h
    obtain ⟨lease, hlease, h⟩ := Node.bind_eq_ok.mp h
    cases h
    exact ⟨hproper, Lease.proper_of_childOf (field_eq_ok.mp hlease)⟩

theorem proper_of_queryOf (h : queryOf n = .ok b) : b.Proper := by
  obtain ⟨q, hq, h⟩ := Node.bind_eq_ok.mp h
  obtain ⟨size, hsize, h⟩ := Node.bind_eq_ok.mp h
  cases h
  refine ⟨sound_of_predicateOf hq, ?_⟩
  rcases Node.parseOptional_eq_ok.mp (field_eq_ok.mp hsize) with ⟨-, rfl⟩ | ⟨raw, k, -, hk, rfl⟩
  · simp
  · rintro _ ⟨⟩
    exact Text.lt_of_word64? hk

theorem proper_of_subscribeOf (h : subscribeOf n = .ok b) : b.Proper := by
  obtain ⟨subscriber, -, h⟩ := Node.bind_eq_ok.mp h
  obtain ⟨host, -, h⟩ := Node.bind_eq_ok.mp h
  obtain ⟨port, -, h⟩ := Node.bind_eq_ok.mp h
  obtain ⟨callback, -, h⟩ := Node.bind_eq_ok.mp h
  obtain ⟨full, -, h⟩ := Node.bind_eq_ok.mp h
  obtain ⟨q, hq, h⟩ := Node.bind_eq_ok.mp h
  cases h
  exact sound_of_predicateOf hq

theorem proper_of_unsubscribeOf (h : unsubscribeOf n = .ok b) : b.Proper := by
  obtain ⟨raw, -, h⟩ := Node.bind_eq_ok.mp h
  split at h <;> cases h
  trivial

theorem proper_of_renewLeaseOf (h : renewLeaseOf n = .ok b) : b.Proper := by
  obtain ⟨id, -, h⟩ := Node.bind_eq_ok.mp h
  obtain ⟨child, -, h⟩ := Node.bind_eq_ok.mp h
  obtain ⟨lease, hlease, h⟩ := Node.bind_eq_ok.mp h
  cases h
  exact Lease.proper_of_ofNode (field_eq_ok.mp hlease)

/-- Whatever body is read has what its reader demands. -/
theorem proper_of_ofNode (h : ofNode n = .ok b) : b.Proper := by
  unfold ofNode at h
  by_cases hlookUp : n.name = "lookupDiscoverer"
  · rw [if_pos hlookUp] at h
    exact proper_of_lookUpOf h
  rw [if_neg hlookUp] at h
  by_cases hregister : n.name = "register"
  · rw [if_pos hregister] at h
    exact proper_of_registerOf h
  rw [if_neg hregister] at h
  by_cases hunregister : n.name = "unregister"
  · rw [if_pos hunregister] at h
    obtain ⟨id, -, rfl⟩ := Node.map_eq_ok.mp h
    trivial
  rw [if_neg hunregister] at h
  by_cases hupdate : n.name = "update"
  · rw [if_pos hupdate] at h
    exact proper_of_updateOf h
  rw [if_neg hupdate] at h
  by_cases hquery : n.name = "query"
  · rw [if_pos hquery] at h
    exact proper_of_queryOf h
  rw [if_neg hquery] at h
  by_cases hnext : n.name = "queryNext"
  · rw [if_pos hnext] at h
    obtain ⟨cursor, -, rfl⟩ := Node.map_eq_ok.mp h
    trivial
  rw [if_neg hnext] at h
  by_cases hsubscribe : n.name = "subscribe"
  · rw [if_pos hsubscribe] at h
    exact proper_of_subscribeOf h
  rw [if_neg hsubscribe] at h
  by_cases hunsubscribe : n.name = "unsubscribe"
  · rw [if_pos hunsubscribe] at h
    exact proper_of_unsubscribeOf h
  rw [if_neg hunsubscribe] at h
  by_cases hrenew : n.name = "renewLease"
  · rw [if_pos hrenew] at h
    exact proper_of_renewLeaseOf h
  · rw [if_neg hrenew] at h
    cases h

end Proper

theorem lookUpOf_toNode (r : LookupRequest) : lookUpOf (lookUp r).toNode = .ok (lookUp r) := by
  have hid : (lookUp r).toNode.valueOf? "id" = some r.caller.text := by
    simp [toNode, fields, Node.valueOf?_branch_cons]
  have hhostname : (lookUp r).toNode.valueOf? "hostname" = some r.hostname := by
    simp [toNode, fields, Node.valueOf?_branch_cons]
  have hhostAddress : (lookUp r).toNode.valueOf? "hostAddress" = some r.hostAddress := by
    simp [toNode, fields, Node.valueOf?_branch_cons]
  have hport : (lookUp r).toNode.valueOf? "port" = some (Text.ofNat r.port.toNat) := by
    simp [toNode, fields, Node.valueOf?_branch_cons]
  refine Node.bind_eq_ok.mpr ⟨r.caller, idOf_eq_ok.mpr hid, ?_⟩
  refine Node.bind_eq_ok.mpr ⟨_, field_eq_ok.mpr (Node.requireValue_eq_ok.mpr hhostAddress), ?_⟩
  refine Node.bind_eq_ok.mpr ⟨_, field_eq_ok.mpr (Node.parse_port hport), ?_⟩
  rw [hhostname]
  rfl

theorem registerOf_toNode {c : Component} {lease : Option Lease}
    (proper : (register c lease).Proper) (numeric : .nan ∉ c.doubles) :
    registerOf (register c lease).toNode = .ok (register c lease) := by
  have hcomponent : (register c lease).toNode.child? Component.tag = some c.toNode := rfl
  have hlease : (register c lease).toNode.child? Lease.tag = lease.map Lease.toNode := by
    cases lease <;> rfl
  refine Node.bind_eq_ok.mpr ⟨_, field_eq_ok.mpr (Node.requireChild_eq_ok.mpr hcomponent), ?_⟩
  refine Node.bind_eq_ok.mpr ⟨c, field_eq_ok.mpr (Component.ofNode_toNode proper.1 numeric), ?_⟩
  exact Node.bind_eq_ok.mpr ⟨lease, field_eq_ok.mpr (Lease.childOf_eq proper.2 hlease), rfl⟩

theorem updateOf_toNode {id : ComponentId} {delta : Attributes} {mode : UpdateMode}
    {lease : Option Lease} (proper : (update id delta mode lease).Proper)
    (numeric : .nan ∉ delta.doubles) :
    updateOf (update id delta mode lease).toNode = .ok (update id delta mode lease) := by
  have hid : (update id delta mode lease).toNode.valueOf? "id" = some id.text := by
    simp [toNode, fields, Node.valueOf?_branch_cons]
  have hmode : (update id delta mode lease).toNode.valueOf? "mode" = some mode.name := by
    simp [toNode, fields, Node.valueOf?_branch_cons]
  have hdelta : (update id delta mode lease).toNode.child? "nonConstantAttributes" =
      some (delta.toNode "nonConstantAttributes") := rfl
  have hlease : (update id delta mode lease).toNode.child? Lease.tag = lease.map Lease.toNode := by
    cases lease <;> rfl
  refine Node.bind_eq_ok.mpr ⟨id, idOf_eq_ok.mpr hid, ?_⟩
  refine Node.bind_eq_ok.mpr
    ⟨delta, field_eq_ok.mpr (Component.attributesOf_eq hdelta proper.1 numeric), ?_⟩
  rw [hmode]
  refine Node.bind_eq_ok.mpr ⟨mode, field_eq_ok.mpr (UpdateMode.ofText_name mode), ?_⟩
  exact Node.bind_eq_ok.mpr ⟨lease, field_eq_ok.mpr (Lease.childOf_eq proper.2 hlease), rfl⟩

theorem queryOf_toNode {q : Option Query} {pageSize : Option Nat}
    (proper : (query q pageSize).Proper) (numeric : ∀ p ∈ q, p.Numeric) :
    queryOf (query q pageSize).toNode = .ok (query q pageSize) := by
  have hpredicate : (query q pageSize).toNode.child? "predicate" =
      q.map fun p => .branch "predicate" [p.toNode] := by
    cases q <;> cases pageSize <;> rfl
  have hsize : (query q pageSize).toNode.valueOf? "pageSize" = pageSize.map Text.ofNat := by
    cases q <;> cases pageSize <;>
      simp [toNode, fields, predicateToNodes, Node.valueOf?_branch_cons]
  have hread : (query q pageSize).toNode.parseOptional "pageSize" Text.word64? = .ok pageSize := by
    refine Node.parseOptional_eq_ok.mpr ?_
    rw [hsize]
    cases pageSize with
    | none => exact .inl ⟨rfl, rfl⟩
    | some k =>
      refine .inr ⟨Text.ofNat k, k, rfl, ?_, rfl⟩
      rw [Text.trim_ofNat, Text.word64?_ofNat (proper.2 k rfl)]
  refine Node.bind_eq_ok.mpr ⟨q, predicateOf_eq proper.1 numeric hpredicate, ?_⟩
  exact Node.bind_eq_ok.mpr ⟨pageSize, field_eq_ok.mpr hread, rfl⟩

theorem subscribeOf_toNode {r : SubscribeRequest} (proper : (subscribe r).Proper)
    (numeric : ∀ p ∈ r.query, p.Numeric) :
    subscribeOf (subscribe r).toNode = .ok (subscribe r) := by
  have hid : (subscribe r).toNode.valueOf? "id" = some r.subscriber.text := by
    simp [toNode, fields, Node.valueOf?_branch_cons]
  have hhost : (subscribe r).toNode.valueOf? "hostAddress" = some r.target.host := by
    simp [toNode, fields, Node.valueOf?_branch_cons]
  have hport : (subscribe r).toNode.valueOf? "port" = some (Text.ofNat r.target.port.toNat) := by
    simp [toNode, fields, Node.valueOf?_branch_cons]
  have hcallback : (subscribe r).toNode.valueOf? "callback" = some r.callback := by
    simp [toNode, fields, Node.valueOf?_branch_cons]
  have hfull : (subscribe r).toNode.parseOptional "full" Text.truth? = .ok (some r.full) := by
    refine Node.parseOptional_eq_ok.mpr (.inr ⟨Text.ofBool r.full, r.full, ?_, ?_, rfl⟩)
    · simp [toNode, fields, Node.valueOf?_branch_cons]
    · rw [Text.trim_ofBool, Text.truth?_ofBool]
  have hpredicate : (subscribe r).toNode.child? "predicate" =
      r.query.map fun p => .branch "predicate" [p.toNode] := by
    cases hquery : r.query <;>
      simp [toNode, fields, predicateToNodes, hquery, Node.child?_branch_cons]
  refine Node.bind_eq_ok.mpr ⟨r.subscriber, idOf_eq_ok.mpr hid, ?_⟩
  refine Node.bind_eq_ok.mpr ⟨_, field_eq_ok.mpr (Node.requireValue_eq_ok.mpr hhost), ?_⟩
  refine Node.bind_eq_ok.mpr ⟨_, field_eq_ok.mpr (Node.parse_port hport), ?_⟩
  refine Node.bind_eq_ok.mpr ⟨_, field_eq_ok.mpr (Node.requireValue_eq_ok.mpr hcallback), ?_⟩
  refine Node.bind_eq_ok.mpr ⟨_, field_eq_ok.mpr hfull, ?_⟩
  exact Node.bind_eq_ok.mpr ⟨r.query, predicateOf_eq proper numeric hpredicate, rfl⟩

theorem unsubscribeOf_toNode (id : SubscriptionId) :
    unsubscribeOf (unsubscribe id).toNode = .ok (unsubscribe id) := by
  have hid : (unsubscribe id).toNode.valueOf? "subscriptionId" = some id.text := by
    simp [toNode, fields, Node.valueOf?_branch_cons]
  refine Node.bind_eq_ok.mpr ⟨_, field_eq_ok.mpr (Node.requireValue_eq_ok.mpr hid), ?_⟩
  rw [SubscriptionId.ofText?_text]
  rfl

theorem renewLeaseOf_toNode {id : ComponentId} {lease : Lease} (proper : lease.Proper) :
    renewLeaseOf (renewLease id lease).toNode = .ok (renewLease id lease) := by
  have hid : (renewLease id lease).toNode.valueOf? "id" = some id.text := by
    simp [toNode, fields, Node.valueOf?_branch_cons]
  have hlease : (renewLease id lease).toNode.child? Lease.tag = some lease.toNode := rfl
  refine Node.bind_eq_ok.mpr ⟨id, idOf_eq_ok.mpr hid, ?_⟩
  refine Node.bind_eq_ok.mpr ⟨_, field_eq_ok.mpr (Node.requireChild_eq_ok.mpr hlease), ?_⟩
  exact Node.bind_eq_ok.mpr ⟨lease, field_eq_ok.mpr (Lease.ofNode_toNode proper), rfl⟩

/-- A body is read from its own node, which is told from the others by its name. -/
theorem ofNode_toNode {b : RequestBody} (proper : b.Proper) (numeric : b.Numeric) :
    ofNode b.toNode = .ok b := by
  cases b with
  | lookUp r => exact lookUpOf_toNode r
  | register c lease => exact registerOf_toNode proper numeric
  | unregister id =>
    have hid : (unregister id).toNode.valueOf? "id" = some id.text := by
      simp [toNode, fields, Node.valueOf?_branch_cons]
    exact Node.map_eq_ok.mpr ⟨id, idOf_eq_ok.mpr hid, rfl⟩
  | update id delta mode lease => exact updateOf_toNode proper numeric
  | query q pageSize => exact queryOf_toNode proper numeric
  | queryNext cursor =>
    have hcursor : (queryNext cursor).toNode.valueOf? "cursor" = some cursor := by
      simp [toNode, fields, Node.valueOf?_branch_cons]
    exact Node.map_eq_ok.mpr
      ⟨cursor, field_eq_ok.mpr (Node.requireValue_eq_ok.mpr hcursor), rfl⟩
  | subscribe r => exact subscribeOf_toNode proper numeric
  | unsubscribe id => exact unsubscribeOf_toNode id
  | renewLease id lease => exact renewLeaseOf_toNode proper

end RequestBody

namespace Request

/-- Whether the body of a request has what its reader demands. -/
def Proper (r : Request) : Prop := r.body.Proper

/-- Whether no double in a request is the absence of a number. -/
def Numeric (r : Request) : Prop := r.body.Numeric

theorem proper_of_ofNode {n : Node} {r : Request} (h : ofNode n = .ok r) : r.Proper := by
  obtain ⟨_, -, h⟩ := Node.bind_eq_ok.mp h
  split at h
  · cases h
  · obtain ⟨body, hbody, h⟩ := Node.bind_eq_ok.mp h
    cases h
    exact RequestBody.proper_of_ofNode hbody

/-- No body is taken for the name of the service. -/
theorem tag_ne_target (b : RequestBody) : b.tag ≠ "target" := by
  cases b <;> simp [RequestBody.tag]

theorem ofNode_toNode {r : Request} (proper : r.Proper) (numeric : r.Numeric) :
    ofNode r.toNode = .ok r := by
  cases r with
  | mk target body =>
    have hname : body.toNode.name = body.tag := rfl
    have htag : body.tag ≠ "target" := tag_ne_target body
    have hbody : (Request.mk target body).toNode.children.find? (fun c => c.name ≠ "target") =
        some body.toNode := by
      cases target <;> simp [toNode, hname, htag]
    have htarget : ((Request.mk target body).toNode.valueOf? "target").map ComponentId.mk =
        target := by
      cases target <;> simp [toNode, Node.valueOf?_branch_cons, hname, htag]
    refine Node.bind_eq_ok.mpr
      ⟨(), RequestBody.field_eq_ok.mpr (Node.expectName_eq_ok.mpr rfl), ?_⟩
    rw [hbody]
    refine Node.bind_eq_ok.mpr ⟨body, RequestBody.ofNode_toNode proper numeric, ?_⟩
    rw [htarget]
    rfl

end Request

/-- Requests, replies, notifications and the answers to the end of a lease are read as what was
written, and only what the readers demand is read. -/
theorem messages_faithful :
    Faithful Request.ofNode Request.toNode Request.Proper Request.Numeric ∧
    Faithful Reply.ofNode Reply.toNode Reply.Proper (fun _ => True) ∧
    Faithful Notification.ofNode Notification.toNode Notification.Proper Notification.Numeric ∧
    Faithful HandshakeReply.ofNode HandshakeReply.toNode HandshakeReply.Proper
      (fun _ => True) := by
  refine ⟨.of ?_ ?_, .of ?_ ?_, .of ?_ ?_, .of ?_ ?_⟩
  · exact fun _ proper numeric => Request.ofNode_toNode proper numeric
  · exact fun _ _ h => Request.proper_of_ofNode h
  · exact fun _ proper _ => Reply.ofNode_toNode proper
  · exact fun _ _ h => Reply.proper_of_ofNode h
  · exact fun _ proper numeric => Notification.ofNode_toNode proper numeric
  · exact fun _ _ h => Notification.proper_of_ofNode h
  · exact fun _ proper _ => HandshakeReply.ofNode_toNode proper
  · exact fun _ _ h => HandshakeReply.proper_of_ofNode h

/-- A registration of a component with minus zero among its attributes. -/
theorem messages_faithful_register :
    let level := Attribute.valued "level" (.float (.ofRank true 0))
    let lamp : Component :=
      { id := ⟨"lamp"⟩, kind := .widget, nonConstant := Attributes.ofList [level] }
    let r : Request := ⟨some ⟨"hall"⟩, .register lamp (some (.ofMillis 1500))⟩
    r.Proper ∧ r.Numeric ∧ Request.ofNode r.toNode = .ok r := by
  intro level lamp r
  have hattributes : (Attributes.ofList [level]).Proper := by
    refine ⟨Attributes.keyed_ofList _, fun a ha => ?_⟩
    obtain rfl := List.mem_singleton.mp (Attributes.mem_values_ofList ha)
    exact ⟨by decide, fun v hv => by cases hv; rfl⟩
  have hproper : r.Proper := by
    refine ⟨⟨by decide, ⟨Attributes.keyed_empty, fun _ h => absurd h List.not_mem_nil⟩,
      hattributes⟩, ?_⟩
    rintro _ ⟨⟩
    exact ⟨1500, by decide, rfl⟩
  have hnumeric : r.Numeric := by
    show Binary64.nan ∉ lamp.doubles
    decide
  exact ⟨hproper, hnumeric, messages_faithful.1.read_write r hproper hnumeric⟩

end Rendezvous
