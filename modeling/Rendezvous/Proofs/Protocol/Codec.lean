import Rendezvous.Proofs.Component.Codec
import Rendezvous.Proofs.Lease.Handshake
import Rendezvous.Proofs.Text.Uuid
import Rendezvous.Protocol.Reply
import Rendezvous.Service.Notification
/-!
# What the service sends, as messages

Replies, notifications, and the answers to the end of a lease. What a reader gives always has the
properties that it checks (`Proper`), whatever was read; and what has these properties is read from
its own message as it is.
-/

namespace Rendezvous

theorem Text.lt_of_word64? {s : String} {n : Nat} (h : word64? s = some n) : n < UInt64.size := by
  unfold word64? natural? at h
  dsimp only at h
  split at h
  · next k _ =>
    by_cases hlt : k < UInt64.size
    · rw [if_pos hlt] at h
      cases h
      exact hlt
    · rw [if_neg hlt] at h
      cases h
  · cases h

namespace Lease

/-- Whether a lease is a number of milliseconds that fits a word. -/
def Proper (l : Lease) : Prop := ∃ ms, ms < UInt64.size ∧ l = ofMillis ms

theorem proper_of_ofNode {n : Node} {l : Lease} (h : ofNode n = .ok l) : l.Proper := by
  obtain ⟨-, raw, ms, -, hms, rfl⟩ := ofNode_eq_ok.mp h
  exact ⟨ms, Text.lt_of_word64? hms, rfl⟩

theorem ofNode_toNode {l : Lease} (h : l.Proper) : ofNode l.toNode = .ok l := by
  obtain ⟨ms, hms, rfl⟩ := h
  have hwire : (ofMillis ms).duration.wireMillis = ms := Duration.wireMillis_ofMillis hms
  refine ofNode_eq_ok.mpr ⟨rfl, Text.ofNat ms, ms, ?_, ?_, rfl⟩
  · simp [toNode, Node.valueOf?_branch_cons, hwire]
  · rw [Text.trim_ofNat, Text.word64?_ofNat hms]

theorem proper_of_childOf {n : Node} {lease : Option Lease} (h : childOf n = .ok lease) :
    ∀ l ∈ lease, l.Proper := by
  unfold childOf at h
  split at h
  · obtain ⟨l, hl, rfl⟩ := Node.map_eq_ok.mp h
    rintro _ ⟨⟩
    exact proper_of_ofNode hl
  · cases h
    simp

theorem childOf_eq {n : Node} {lease : Option Lease} (hproper : ∀ l ∈ lease, l.Proper)
    (h : n.child? tag = lease.map toNode) : childOf n = .ok lease := by
  unfold childOf
  rw [h]
  cases lease with
  | none => rfl
  | some l =>
    show (ofNode l.toNode).map some = _
    rw [ofNode_toNode (hproper l rfl)]
    rfl

end Lease

namespace Page

/-- Whether the number of what is left fits a word. -/
def Proper (p : Page) : Prop := p.remaining < UInt64.size

theorem proper_of_ofNode {n : Node} {p : Page} (h : ofNode n = .ok p) : p.Proper := by
  obtain ⟨_, -, h⟩ := Node.bind_eq_ok.mp h
  obtain ⟨components, -, h⟩ := Node.bind_eq_ok.mp h
  obtain ⟨remaining, hremaining, h⟩ := Node.bind_eq_ok.mp h
  cases h
  rcases Node.parseOptional_eq_ok.mp hremaining with ⟨-, rfl⟩ | ⟨raw, k, -, hk, rfl⟩
  · show 0 < UInt64.size
    decide
  · exact Text.lt_of_word64? hk

theorem name_of_mem_components {p : Page} {c : Node} (h : c ∈ p.components.map Summary.toNode) :
    c.name = Summary.tag := by
  obtain ⟨s, -, rfl⟩ := List.mem_map.mp h
  rfl

theorem ofNode_toNode {p : Page} (h : p.Proper) : ofNode p.toNode = .ok p := by
  have hcomponents : (p.toNode.childrenNamed Summary.tag).mapM Summary.ofNode =
      .ok p.components := by
    have hall : p.toNode.childrenNamed Summary.tag = p.components.map Summary.toNode := by
      refine Node.childrenNamed_append (fun c hc => name_of_mem_components hc) ?_
      cases p.cursor <;> simp [Summary.tag]
    rw [hall]
    exact Node.mapM_map fun s _ => Summary.ofNode_toNode s
  have hother : ∀ {name}, name ≠ Summary.tag →
      ∀ c ∈ p.components.map Summary.toNode, c.name ≠ name := by
    intro name hname c hc heq
    rw [name_of_mem_components hc] at heq
    exact hname heq.symm
  have hremaining : p.toNode.parseOptional "remaining" Text.word64? = .ok (some p.remaining) := by
    refine Node.parseOptional_eq_ok.mpr (.inr ⟨Text.ofNat p.remaining, p.remaining, ?_, ?_, rfl⟩)
    · rw [toNode, Node.valueOf?_branch_append (hother (by decide))]
      simp [Node.valueOf?_branch_cons]
    · rw [Text.trim_ofNat, Text.word64?_ofNat h]
  have hcursor : p.toNode.valueOf? "cursor" = p.cursor := by
    rw [toNode, Node.valueOf?_branch_append (hother (by decide))]
    cases p.cursor <;> simp [Node.valueOf?_branch_cons]
  refine Node.bind_eq_ok.mpr ⟨(), Node.expectName_eq_ok.mpr rfl, ?_⟩
  refine Node.bind_eq_ok.mpr ⟨_, hcomponents, ?_⟩
  refine Node.bind_eq_ok.mpr ⟨_, hremaining, ?_⟩
  rw [hcursor]
  rfl

end Page

theorem ReplyCode.ofText_name (c : ReplyCode) : ofText c.name = .ok c := by
  cases c <;> rfl

namespace Reply

/-- Whether a reply brings what can be read: a lease or a page that is proper. -/
def Proper (r : Reply) : Prop :=
  match r.body with
  | .lease l => l.Proper
  | .components p => p.Proper
  | _ => True

theorem proper_of_ofNode {n : Node} {r : Reply} (h : ofNode n = .ok r) : r.Proper := by
  obtain ⟨_, -, h⟩ := Node.bind_eq_ok.mp h
  obtain ⟨word, -, h⟩ := Node.bind_eq_ok.mp h
  obtain ⟨code, -, h⟩ := Node.bind_eq_ok.mp h
  obtain ⟨body, hbody, h⟩ := Node.bind_eq_ok.mp h
  cases h
  unfold bodyOf at hbody
  split at hbody
  · obtain ⟨s, -, rfl⟩ := Node.map_eq_ok.mp hbody
    trivial
  · obtain ⟨l, hl, rfl⟩ := Node.map_eq_ok.mp hbody
    exact Lease.proper_of_ofNode hl
  · obtain ⟨p, hp, rfl⟩ := Node.map_eq_ok.mp hbody
    exact Page.proper_of_ofNode hp
  · split at hbody
    · cases hbody
      trivial
    · cases hbody
  · cases hbody
    trivial

theorem bodyOf_toNode {r : Reply} (h : r.Proper) : bodyOf r.toNode = .ok r.body := by
  unfold Proper at h
  unfold bodyOf toNode
  cases hbody : r.body with
  | empty =>
    simp [Node.child?_branch_cons, Node.valueOf?_branch_cons, Summary.tag, Lease.tag, Page.tag]
  | discoverer s =>
    have hread : Summary.ofNode s.toNode = .ok s := Summary.ofNode_toNode s
    have hname : s.toNode.name = "componentSummary" := rfl
    simp [Node.child?_branch_cons, hname, Summary.tag, hread, Except.map]
  | lease l =>
    rw [hbody] at h
    have hread : Lease.ofNode l.toNode = .ok l := Lease.ofNode_toNode h
    have hname : l.toNode.name = "lease" := rfl
    simp [Node.child?_branch_cons, hname, Summary.tag, Lease.tag, hread, Except.map]
  | components p =>
    rw [hbody] at h
    have hread : Page.ofNode p.toNode = .ok p := Page.ofNode_toNode h
    have hname : p.toNode.name = "components" := rfl
    simp [Node.child?_branch_cons, hname, Summary.tag, Lease.tag, Page.tag, hread, Except.map]
  | subscribed id =>
    simp [Node.child?_branch_cons, Node.valueOf?_branch_cons, Summary.tag, Lease.tag, Page.tag,
      SubscriptionId.ofText?_text]

theorem ofNode_toNode {r : Reply} (h : r.Proper) : ofNode r.toNode = .ok r := by
  have hcode : r.toNode.valueOf? "code" = some r.code.name := by
    simp [toNode, Node.valueOf?_branch_cons]
  refine Node.bind_eq_ok.mpr ⟨(), Node.expectName_eq_ok.mpr rfl, ?_⟩
  refine Node.bind_eq_ok.mpr ⟨_, Node.requireValue_eq_ok.mpr hcode, ?_⟩
  refine Node.bind_eq_ok.mpr ⟨_, ReplyCode.ofText_name r.code, ?_⟩
  exact Node.bind_eq_ok.mpr ⟨_, bodyOf_toNode h, rfl⟩

end Reply

namespace Callback

theorem ofText?_name (c : Callback) : ofText? c.name = some c := by
  cases c <;> rfl

end Callback

namespace Notification

/-- Whether the component of a notification in full is proper. -/
def Proper (n : Notification) : Prop :=
  match n.subject with
  | .full c => c.Proper
  | .basic _ => True

/-- Whether the component of a notification in full is without absent numbers. -/
def Numeric (n : Notification) : Prop :=
  match n.subject with
  | .full c => .nan ∉ c.doubles
  | .basic _ => True

theorem proper_of_ofNode {m : Node} {n : Notification} (h : ofNode m = .ok n) : n.Proper := by
  obtain ⟨_, -, h⟩ := Node.bind_eq_ok.mp h
  obtain ⟨raw, -, h⟩ := Node.bind_eq_ok.mp h
  dsimp only at h
  split at h
  · obtain ⟨subscription, -, h⟩ := Node.bind_eq_ok.mp h
    obtain ⟨word, -, h⟩ := Node.bind_eq_ok.mp h
    split at h
    · obtain ⟨callback, -, h⟩ := Node.bind_eq_ok.mp h
      split at h
      · obtain ⟨subject, hsubject, h⟩ := Node.bind_eq_ok.mp h
        obtain ⟨c, hc, rfl⟩ := Node.map_eq_ok.mp hsubject
        cases h
        exact Component.proper_of_ofNode hc
      · obtain ⟨subject, hsubject, h⟩ := Node.bind_eq_ok.mp h
        obtain ⟨s, -, rfl⟩ := Node.map_eq_ok.mp hsubject
        cases h
        trivial
      · cases h
    · cases h
  · cases h

theorem ofNode_toNode {n : Notification} (proper : n.Proper) (numeric : n.Numeric) :
    ofNode n.toNode = .ok n := by
  have hsubscription : n.toNode.valueOf? "subscriptionId" = some n.subscription.text := by
    simp [toNode, Node.valueOf?_branch_cons]
  have hcallback : n.toNode.valueOf? "callback" = some n.callback.name := by
    simp [toNode, Node.valueOf?_branch_cons]
  refine Node.bind_eq_ok.mpr ⟨(), Node.expectName_eq_ok.mpr rfl, ?_⟩
  refine Node.bind_eq_ok.mpr ⟨_, Node.requireValue_eq_ok.mpr hsubscription, ?_⟩
  rw [SubscriptionId.ofText?_text]
  refine Node.bind_eq_ok.mpr ⟨n.subscription, rfl, ?_⟩
  refine Node.bind_eq_ok.mpr ⟨_, Node.requireValue_eq_ok.mpr hcallback, ?_⟩
  rw [Callback.ofText?_name]
  refine Node.bind_eq_ok.mpr ⟨n.callback, rfl, ?_⟩
  unfold Proper at proper
  unfold Numeric at numeric
  cases hsubject : n.subject with
  | full c =>
    rw [hsubject] at proper numeric
    have hchild : n.toNode.child? Component.tag = some c.toNode := by
      rw [toNode, hsubject]
      rfl
    rw [hchild]
    refine Node.bind_eq_ok.mpr ⟨.full c, ?_, by rw [← hsubject]; rfl⟩
    exact Node.map_eq_ok.mpr ⟨c, Component.ofNode_toNode proper numeric, rfl⟩
  | basic s =>
    have hnone : n.toNode.child? Component.tag = none := by
      rw [toNode, hsubject]
      rfl
    have hchild : n.toNode.child? Summary.tag = some s.toNode := by
      rw [toNode, hsubject]
      rfl
    rw [hnone, hchild]
    refine Node.bind_eq_ok.mpr ⟨.basic s, ?_, by rw [← hsubject]; rfl⟩
    exact Node.map_eq_ok.mpr ⟨s, Summary.ofNode_toNode s, rfl⟩

end Notification

namespace HandshakeReply

/-- Whether the new lease of an answer is proper. -/
def Proper : HandshakeReply → Prop
  | renewal _ lease => lease.Proper
  | ended _ => True

theorem proper_of_ofNode {n : Node} {r : HandshakeReply} (h : ofNode n = .ok r) : r.Proper := by
  cases r with
  | renewal c l =>
    obtain ⟨-, -, child, -, hl⟩ := ofNode_eq_renewal.mp h
    exact Lease.proper_of_ofNode hl
  | ended c => trivial

theorem ofNode_toNode {r : HandshakeReply} (h : r.Proper) : ofNode r.toNode = .ok r := by
  cases r with
  | renewal c l =>
    refine ofNode_eq_renewal.mpr ⟨rfl, ?_, l.toNode, rfl, Lease.ofNode_toNode h⟩
    simp [toNode, Node.valueOf?_branch_cons]
  | ended c =>
    have hid : (ended c).toNode.valueOf? "id" = some c.text := by
      simp [toNode, aboutComponent, Node.valueOf?_branch_cons]
    refine Node.bind_eq_ok.mpr ⟨_, Node.requireValue_eq_ok.mpr hid, ?_⟩
    rfl

end HandshakeReply

end Rendezvous
