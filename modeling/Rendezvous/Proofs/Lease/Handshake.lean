import Rendezvous.Lease.Handshake
import Rendezvous.Proofs.Message.Node
/-!
# Which answers renew a lease

Of all that can come of asking a component at the end of its lease, exactly the answers described
by `RenewedBy` renew it (`HandshakeOutcome.ofDelivery_eq_renewed`). Whatever else comes, the lease
ends.
-/

namespace Rendezvous

/-- Whether an answer to the end of a lease is a renewal by the component that was asked, for the
given number of milliseconds. -/
structure RenewedBy (id : ComponentId) (ms : Nat) (n : Node) : Prop where
  name : n.name = "leaseRenewal"
  component : n.valueOf? "id" = some id.text
  lease : ∃ l raw, n.child? "lease" = some l ∧ l.valueOf? "durationMs" = some raw ∧
    Text.word64? (Text.trim raw) = some ms

theorem Lease.ofNode_eq_ok {n : Node} {l : Lease} :
    Lease.ofNode n = .ok l ↔
      n.name = Lease.tag ∧ ∃ raw ms, n.valueOf? "durationMs" = some raw ∧
        Text.word64? (Text.trim raw) = some ms ∧ Lease.ofMillis ms = l := by
  unfold Lease.ofNode
  simp only [Node.bind_eq_ok, Node.expectName_eq_ok, Node.parse_eq_ok, pure, Except.pure,
    Except.ok.injEq]
  constructor
  · rintro ⟨-, hname, ms, ⟨raw, hraw, hms⟩, hl⟩
    exact ⟨hname, raw, ms, hraw, hms, hl⟩
  · rintro ⟨hname, raw, ms, hraw, hms, hl⟩
    exact ⟨(), hname, ms, ⟨raw, hraw, hms⟩, hl⟩

theorem HandshakeReply.ofNode_eq_renewal {n : Node} {c : ComponentId} {l : Lease} :
    HandshakeReply.ofNode n = .ok (.renewal c l) ↔
      n.name = HandshakeReply.renewalTag ∧ n.valueOf? "id" = some c.text ∧
        ∃ child, n.child? Lease.tag = some child ∧ Lease.ofNode child = .ok l := by
  unfold HandshakeReply.ofNode
  rw [Node.bind_eq_ok]
  simp only [Node.requireValue_eq_ok]
  constructor
  · rintro ⟨text, htext, h⟩
    split at h
    · next hname =>
      obtain ⟨child, hchild, h⟩ := Node.bind_eq_ok.mp h
      obtain ⟨l', hl', h⟩ := Node.bind_eq_ok.mp h
      cases h
      exact ⟨hname, htext, child, Node.requireChild_eq_ok.mp hchild, hl'⟩
    · split at h <;> cases h
  · rintro ⟨hname, htext, child, hchild, hl⟩
    refine ⟨c.text, htext, ?_⟩
    rw [if_pos hname, Node.requireChild_eq_ok.mpr hchild]
    show (Lease.ofNode child >>= fun l => _) = _
    rw [hl]
    rfl

/-- An answer renews a lease exactly if it is a renewal by the component that was asked. -/
theorem HandshakeOutcome.ofDelivery_eq_renewed {id : ComponentId} {result : Delivery}
    {lease : Lease} :
    HandshakeOutcome.ofDelivery id result = .renewed lease ↔
      ∃ n ms, result = .ok n ∧ RenewedBy id ms n ∧ lease = .ofMillis ms := by
  unfold HandshakeOutcome.ofDelivery
  constructor
  · intro h
    cases result with
    | error e => cases h
    | ok n =>
      simp only at h
      split at h
      · cases h
      · next reply hreply =>
        split at h
        · cases h
        · next hid =>
          cases reply with
          | ended c => cases h
          | renewal c l =>
            cases h
            obtain rfl : c = id := Decidable.not_not.mp hid
            obtain ⟨hname, htext, child, hchild, hlease⟩ :=
              HandshakeReply.ofNode_eq_renewal.mp hreply
            obtain ⟨-, raw, ms, hraw, hms, rfl⟩ := Lease.ofNode_eq_ok.mp hlease
            exact ⟨n, ms, rfl, ⟨hname, htext, child, raw, hchild, hraw, hms⟩, rfl⟩
  · rintro ⟨n, ms, rfl, ⟨hname, htext, child, raw, hchild, hraw, hms⟩, rfl⟩
    have hlease : Lease.ofNode child = .ok (.ofMillis ms) :=
      Lease.ofNode_eq_ok.mpr ⟨Node.name_of_child? hchild, raw, ms, hraw, hms, rfl⟩
    have hreply : HandshakeReply.ofNode n = .ok (.renewal id (.ofMillis ms)) :=
      HandshakeReply.ofNode_eq_renewal.mpr ⟨hname, htext, child, hchild, hlease⟩
    simp only [hreply]
    exact if_neg fun h => h rfl

end Rendezvous
