import Rendezvous.Proofs.Transport.Framing
import Rendezvous.Protocol.Connection
/-!
# One reply for each line

A connection is answered line by line (`Mediator.served_line_by_line`): a line that is not blank
gets one reply, which is given in the state that the lines before it have left, and the first line
that is too long gets the last one. Each reply is one line itself, so whoever sends line by line can
tell from the number of a reply what it answers.
-/

namespace Rendezvous

namespace Mediator

open Framing

variable {J : Type} [Journal J]

/-- The reply to a line that is not blank, and the service after it. -/
def answerLine (now : Instant) (m : Mediator J) (line : List UInt8) : Node × Mediator J :=
  match reading line with
  | .ok (some n) => m.handle now n
  | _ => (garbledReply, m)

/-- The service after lines that are not blank, of which the one after `k` others is carried out at
the instant `clock k`. -/
def afterLines (clock : Nat → Instant) (m : Mediator J) : List (List UInt8) → Mediator J
  | [] => m
  | line :: more => afterLines (fun k => clock (k + 1)) (m.answerLine (clock 0) line).2 more

/-- The replies to lines that are not blank: to each one the reply in the state that those before it
have left. -/
def replies (clock : Nat → Instant) (m : Mediator J) (spoken : List (List UInt8)) : List Node :=
  spoken.mapIdx fun k line => ((m.afterLines clock (spoken.take k)).answerLine (clock k) line).1

theorem replies_cons (clock : Nat → Instant) (m : Mediator J) (line : List UInt8)
    (more : List (List UInt8)) :
    m.replies clock (line :: more) = (m.answerLine (clock 0) line).1 ::
      replies (fun k => clock (k + 1)) (m.answerLine (clock 0) line).2 more := by
  unfold replies
  rw [List.mapIdx_cons]
  rfl

/-! ## The first line -/

section First

variable {limit : Nat} {line rest : List UInt8}

/-- What is answered and what becomes of the service, by the first thing that is received. -/
theorem serveWithin_eq (limit : Nat) (clock : Nat → Instant) (m : Mediator J)
    (bytes : List UInt8) :
    m.serveWithin limit clock bytes =
      let next := receive limit bytes
      match next.1 with
      | .ended => ([], m)
      | .tooLong => ([garbledReply], m)
      | .garbled =>
        let (replies, m) := m.serveWithin limit (fun k => clock (k + 1)) next.2
        (garbledReply :: replies, m)
      | .message n =>
        let (reply, m) := m.handle (clock 0) n
        let (replies, m) := m.serveWithin limit (fun k => clock (k + 1)) next.2
        (reply :: replies, m) := by
  rw [serveWithin]
  split
  · next h =>
    rw [h, receive]
    rfl
  · rfl

theorem serveWithin_of_long (clock : Nat → Instant) (m : Mediator J) (h : EndsBefore line rest)
    (hlong : limit < line.length) :
    m.serveWithin limit clock (line ++ rest) = ([garbledReply], m) := by
  rw [serveWithin_eq, receive_of_long h hlong]

theorem serveWithin_of_blank (clock : Nat → Instant) (m : Mediator J) (h : EndsBefore line rest)
    (hshort : line.length ≤ limit) (hblank : line.all isBlank = true) :
    m.serveWithin limit clock (line ++ rest) = m.serveWithin limit clock (rest.drop 1) := by
  rw [serveWithin_eq, receive_of_blank h hshort hblank, ← serveWithin_eq]

theorem serveWithin_of_spoken (clock : Nat → Instant) (m : Mediator J) (h : EndsBefore line rest)
    (hshort : line.length ≤ limit) (hspoken : ¬ line.all isBlank = true) :
    m.serveWithin limit clock (line ++ rest) =
      let first := m.answerLine (clock 0) line
      let next := first.2.serveWithin limit (fun k => clock (k + 1)) (rest.drop 1)
      (first.1 :: next.1, next.2) := by
  rw [serveWithin_eq, receive_of_spoken h hshort hspoken]
  unfold answerLine reading ofLine
  cases Node.ofBytes? (Text.Utf8.decode (trim line)) <;> rfl

end First

/-! ## All lines -/

theorem serveWithin_lines (limit : Nat) (clock : Nat → Instant) (m : Mediator J)
    (stream : List UInt8) :
    m.serveWithin limit clock stream =
      (m.replies clock (spoken limit stream) ++
          (if ∃ line ∈ lines stream, limit < line.length then [garbledReply] else []),
        m.afterLines clock (spoken limit stream)) := by
  induction stream using Framing.induction generalizing clock m with
  | nil =>
    rw [serveWithin, dif_pos rfl]
    rfl
  | line line rest h ih =>
    rcases Nat.lt_or_ge limit line.length with hlong | hshort
    · rw [serveWithin_of_long clock m h hlong, spoken, fitting_of_long h hlong, lines_append h,
        if_pos ⟨line, List.mem_cons_self, hlong⟩]
      rfl
    · rw [spoken, fitting_of_short h hshort, lines_append h]
      simp only [List.exists_mem_cons_iff, Nat.not_lt.mpr hshort, false_or]
      by_cases hblank : line.all isBlank = true
      · rw [serveWithin_of_blank clock m h hshort hblank, ih,
          List.filter_cons_of_neg (by simp [hblank]), spoken]
      · rw [serveWithin_of_spoken clock m h hshort hblank,
          List.filter_cons_of_pos (by simpa using hblank), replies_cons, afterLines]
        simp only [ih, spoken, List.cons_append]

/-- A connection is answered line by line. Each line that is not blank and not behind one that is
too long gets the reply that the service gives in the state that the lines before it have left; the
first line that is too long gets one more, and what follows on the connection does not matter. A
line that is no message, and one that is too long, is answered as data that cannot be read and
leaves the service as it is. Each reply is one line of what is written. -/
theorem served_line_by_line (clock : Nat → Instant) (m : Mediator J) (stream : List UInt8) :
    (m.serve clock stream).1 =
        m.replies clock (spoken defaultLimit stream) ++
          (if ∃ line ∈ lines stream, defaultLimit < line.length then [garbledReply] else []) ∧
      (m.serve clock stream).2 = m.afterLines clock (spoken defaultLimit stream) ∧
      lines ((m.serve clock stream).1.flatMap bytes) = (m.serve clock stream).1.map content ∧
      ((∃ line ∈ lines stream, defaultLimit < line.length) →
        ∀ more, m.serve clock (stream.take (taken defaultLimit stream) ++ more) =
          m.serve clock stream) := by
  unfold serve
  refine ⟨?_, ?_, lines_bytes _, fun hlong more => ?_⟩
  · rw [serveWithin_lines]
  · rw [serveWithin_lines]
  · obtain ⟨hfitting, hlong'⟩ := fitting_of_taken hlong more
    rw [serveWithin_lines, serveWithin_lines, spoken, hfitting, if_pos hlong, if_pos hlong',
      ← spoken]

/-- Nothing but a line that is too long: it is answered, and nothing behind it is. -/
theorem served_line_by_line_overlong :
    let m : Mediator NoJournal := new {} ⟨⟩ Text.ofNat fun n => ⟨.supply 0 n⟩
    let stream := List.replicate (defaultLimit + 1) (120 : UInt8)
    (∃ line ∈ lines stream, defaultLimit < line.length) ∧
      ∀ more, m.serve (fun _ => ⟨0⟩) (stream.take (taken defaultLimit stream) ++ more) =
        m.serve (fun _ => ⟨0⟩) stream := by
  intro m stream
  have hends : EndsBefore stream [] := by
    refine ⟨fun hmem => ?_, .inr ⟨rfl, by simp [stream]⟩⟩
    exact absurd (List.eq_of_mem_replicate hmem) (by decide)
  have hlines : lines stream = [stream] := by
    have := lines_append hends
    rwa [List.append_nil] at this
  have hlong : ∃ line ∈ lines stream, defaultLimit < line.length := by
    rw [hlines]
    exact ⟨stream, List.mem_cons_self, by simp [stream]⟩
  exact ⟨hlong, (served_line_by_line (fun _ => ⟨0⟩) m stream).2.2.2 hlong⟩

end Mediator

end Rendezvous
