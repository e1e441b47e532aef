import Mathlib.Algebra.GroupWithZero.Nat
import Mathlib.Data.List.TakeWhile
import Rendezvous.Proofs.Message.Json
import Rendezvous.Transport.Framing
/-!
# What a stream brings, line by line

Reading messages off a stream, call after call, is the same as splitting the stream at its ends of
line and reading each line that is not blank, up to the first one that is too long
(`Framing.read_by_lines`). Whether a line is too long is seen from one byte past the limit, so that
one and all before it is what is taken off the stream. What was written message by message is read
as the same messages, as far as each is short enough and not too deep.
-/

namespace Rendezvous.Framing

/-- The lines of a stream: what stands before each end of line, and what stands after the last one
unless it is nothing. -/
def lines : List UInt8 → List (List UInt8)
  | [] => []
  | b :: rest =>
    if b = lineEnd then [] :: lines rest
    else
      match lines rest with
      | [] => [[b]]
      | line :: more => (b :: line) :: more

/-- The lines before the first one that is longer than the limit. -/
def fitting (limit : Nat) (bytes : List UInt8) : List (List UInt8) :=
  (lines bytes).takeWhile fun line => line.length ≤ limit

/-- The lines of these in which there is something. -/
def spoken (limit : Nat) (bytes : List UInt8) : List (List UInt8) :=
  (fitting limit bytes).filter fun line => !line.all isBlank

/-- How many bytes are taken off a stream: the lines that are not too long with their ends, and of
the next one as many as show that it is. -/
def taken (limit : Nat) (bytes : List UInt8) : Nat :=
  ((fitting limit bytes).map fun line => line.length + 1).sum + (limit + 1)

/-- What is read of a line. -/
def reading (line : List UInt8) : Except TransportError (Option Node) :=
  match Node.ofBytes? (Text.Utf8.decode (trim line)) with
  | some n => .ok (some n)
  | none => .error (.codec "")

/-- How reading comes to its end: at a line that is too long or at the end of the stream. -/
def closing (limit : Nat) (bytes : List UInt8) : Arrival :=
  if ∃ line ∈ lines bytes, limit < line.length then .tooLong else .ended

/-! ## Lines -/

/-- Whether a line has its end here: an end of line follows, or nothing does and it is not empty. -/
def EndsBefore (line rest : List UInt8) : Prop :=
  lineEnd ∉ line ∧ ((∃ more, rest = lineEnd :: more) ∨ (rest = [] ∧ line ≠ []))

/-- The first line of a stream, and the lines of what is left behind its end. -/
theorem lines_append {line rest : List UInt8} (h : EndsBefore line rest) :
    lines (line ++ rest) = line :: lines (rest.drop 1) := by
  obtain ⟨hplain, hrest⟩ := h
  induction line with
  | nil =>
    rcases hrest with ⟨more, rfl⟩ | ⟨-, hne⟩
    · simp [lines]
    · exact absurd rfl hne
  | cons b line ih =>
    obtain ⟨hb, hplain'⟩ := List.ne_and_not_mem_of_not_mem_cons hplain
    rw [List.cons_append, lines, if_neg hb.symm]
    rcases hrest with hmore | ⟨rfl, -⟩
    · rw [ih hplain' (.inl hmore)]
    · cases line with
      | nil => rfl
      | cons c line => rw [ih hplain' (.inr ⟨rfl, List.cons_ne_nil _ _⟩)]

theorem exists_line {bytes : List UInt8} (hne : bytes ≠ []) :
    ∃ line rest, bytes = line ++ rest ∧ EndsBefore line rest := by
  induction bytes with
  | nil => exact absurd rfl hne
  | cons b bytes ih =>
    by_cases hb : b = lineEnd
    · exact ⟨[], b :: bytes, rfl, List.not_mem_nil, .inl ⟨bytes, by rw [hb]⟩⟩
    · have hplain {line : List UInt8} (h : lineEnd ∉ line) : lineEnd ∉ b :: line :=
        List.not_mem_cons_of_ne_of_not_mem (Ne.symm hb) h
      by_cases hbytes : bytes = []
      · exact ⟨[b], [], by rw [hbytes]; rfl, hplain List.not_mem_nil,
          .inr ⟨rfl, List.cons_ne_nil _ _⟩⟩
      · obtain ⟨line, rest, rfl, hline, hrest⟩ := ih hbytes
        exact ⟨b :: line, rest, rfl, hplain hline,
          hrest.imp_right fun h => ⟨h.1, List.cons_ne_nil _ _⟩⟩

theorem EndsBefore.length_drop_lt {line rest : List UInt8} (h : EndsBefore line rest) :
    (rest.drop 1).length < (line ++ rest).length := by
  rw [List.length_append, List.length_drop]
  rcases h.2 with ⟨more, rfl⟩ | ⟨rfl, hne⟩
  · simp
    omega
  · have := List.length_pos_iff.mpr hne
    simp
    omega

/-- Induction over a stream by its lines. -/
@[elab_as_elim]
theorem induction {motive : List UInt8 → Prop} (nil : motive [])
    (line : ∀ line rest, EndsBefore line rest → motive (rest.drop 1) → motive (line ++ rest))
    (bytes : List UInt8) : motive bytes :=
  if h : bytes = [] then h ▸ nil
  else by
    obtain ⟨front, rest, hbytes, hends⟩ := exists_line h
    rw [hbytes]
    exact line front rest hends (induction nil line (rest.drop 1))
termination_by bytes.length
decreasing_by exact hbytes ▸ hends.length_drop_lt

/-! ## One call -/

/-- What is taken off the front of a stream for a line: the line and its end, or as much of it as
there is room for. -/
theorem takeLine_append {line rest : List UInt8} (h : EndsBefore line rest) (budget : Nat)
    (taken : List UInt8) :
    takeLine budget taken (line ++ rest) =
      if line.length < budget then (line.reverse ++ taken, !rest.isEmpty, rest.drop 1)
      else ((line.take budget).reverse ++ taken, false, line.drop budget ++ rest) := by
  obtain ⟨hplain, hrest⟩ := h
  induction line generalizing budget taken with
  | nil =>
    rcases hrest with ⟨more, rfl⟩ | ⟨-, hne⟩
    · cases budget <;> simp [takeLine]
    · exact absurd rfl hne
  | cons b line ih =>
    obtain ⟨hb, hplain'⟩ := List.ne_and_not_mem_of_not_mem_cons hplain
    cases budget with
    | zero => simp [takeLine]
    | succ budget =>
      rw [List.cons_append, takeLine, if_neg hb.symm]
      rcases hrest with hmore | ⟨rfl, -⟩
      · rw [ih budget (b :: taken) hplain' (.inl hmore)]
        simp
      · cases line with
        | nil => cases budget <;> simp [takeLine]
        | cons c line =>
          rw [ih budget (b :: taken) hplain' (.inr ⟨rfl, List.cons_ne_nil _ _⟩)]
          simp

/-- Trimming leaves nothing exactly of a blank line. -/
theorem trim_eq_nil_iff {line : List UInt8} : trim line = [] ↔ line.all isBlank = true := by
  rw [trim, List.reverse_eq_nil_iff, List.dropWhile_eq_nil_iff, List.all_eq_true]
  constructor
  · intro h b hb
    rw [← List.takeWhile_append_dropWhile (p := isBlank) (l := line)] at hb
    rcases List.mem_append.mp hb with hb | hb
    · exact List.mem_takeWhile_imp hb
    · exact h b (List.mem_reverse.mpr hb)
  · intro h b hb
    exact h b ((List.dropWhile_sublist isBlank).mem (List.mem_reverse.mp hb))

theorem EndsBefore.ne_nil {line rest : List UInt8} (h : EndsBefore line rest) :
    line ++ rest ≠ [] := by
  rcases h.2 with ⟨more, rfl⟩ | ⟨rfl, hne⟩
  · simp
  · simpa using hne

/-- Of a line that is too long as much is taken off as shows that it is. -/
theorem receive_of_long {line rest : List UInt8} (h : EndsBefore line rest) {limit : Nat}
    (hlong : limit < line.length) :
    receive limit (line ++ rest) = (.tooLong, line.drop (limit + 1) ++ rest) := by
  rw [receive, dif_neg h.ne_nil]
  simp only [takeLine_append h, if_neg (Nat.not_lt.mpr (Nat.succ_le_of_lt hlong))]
  rw [if_pos]
  simp
  omega

/-- A blank line is passed over. -/
theorem receive_of_blank {line rest : List UInt8} (h : EndsBefore line rest) {limit : Nat}
    (hshort : line.length ≤ limit) (hblank : line.all isBlank = true) :
    receive limit (line ++ rest) = receive limit (rest.drop 1) := by
  rw [receive, dif_neg h.ne_nil]
  simp only [takeLine_append h, if_pos (Nat.lt_succ_of_le hshort)]
  rw [if_neg (by simp; omega)]
  simp [trim_eq_nil_iff.mpr hblank]

/-- Any other line is read. -/
theorem receive_of_spoken {line rest : List UInt8} (h : EndsBefore line rest) {limit : Nat}
    (hshort : line.length ≤ limit) (hspoken : ¬ line.all isBlank = true) :
    receive limit (line ++ rest) = (ofLine (trim line), rest.drop 1) := by
  have hcontent : trim line ≠ [] := fun hnil => hspoken (trim_eq_nil_iff.mp hnil)
  rw [receive, dif_neg h.ne_nil]
  simp only [takeLine_append h, if_pos (Nat.lt_succ_of_le hshort)]
  rw [if_neg (by simp; omega)]
  simp [hcontent]

/-! ## All calls -/

/-- What the calls give and leave, by the first one of them. -/
theorem readOut_eq (limit : Nat) (bytes : List UInt8) :
    readOut limit bytes =
      let next := receive limit bytes
      match next.1 with
      | .tooLong => ([.tooLong], next.2)
      | .ended => ([.ended], next.2)
      | arrival => (arrival :: (readOut limit next.2).1, (readOut limit next.2).2) := by
  rw [readOut]
  split
  · next h =>
    rw [h, receive]
    rfl
  · rfl

theorem readOut_nil (limit : Nat) : readOut limit [] = ([.ended], []) := by
  rw [readOut, dif_pos rfl]

theorem readOut_of_long {line rest : List UInt8} (h : EndsBefore line rest) {limit : Nat}
    (hlong : limit < line.length) :
    readOut limit (line ++ rest) = ([.tooLong], line.drop (limit + 1) ++ rest) := by
  rw [readOut_eq, receive_of_long h hlong]

theorem readOut_of_blank {line rest : List UInt8} (h : EndsBefore line rest) {limit : Nat}
    (hshort : line.length ≤ limit) (hblank : line.all isBlank = true) :
    readOut limit (line ++ rest) = readOut limit (rest.drop 1) := by
  rw [readOut_eq, receive_of_blank h hshort hblank, ← readOut_eq]

theorem readOut_of_spoken {line rest : List UInt8} (h : EndsBefore line rest) {limit : Nat}
    (hshort : line.length ≤ limit) (hspoken : ¬ line.all isBlank = true) :
    readOut limit (line ++ rest) =
      (ofLine (trim line) :: (readOut limit (rest.drop 1)).1, (readOut limit (rest.drop 1)).2) := by
  rw [readOut_eq, receive_of_spoken h hshort hspoken]
  unfold ofLine
  cases Node.ofBytes? (Text.Utf8.decode (trim line)) <;> rfl

/-! ## The lines that are read -/

section Lines

variable {limit : Nat} {line rest : List UInt8}

theorem fitting_of_long (h : EndsBefore line rest) (hlong : limit < line.length) :
    fitting limit (line ++ rest) = [] := by
  rw [fitting, lines_append h, List.takeWhile_cons_of_neg (by simpa using hlong)]

theorem fitting_of_short (h : EndsBefore line rest) (hshort : line.length ≤ limit) :
    fitting limit (line ++ rest) = line :: fitting limit (rest.drop 1) := by
  rw [fitting, lines_append h, List.takeWhile_cons_of_pos (by simpa using hshort), fitting]

theorem taken_of_long (h : EndsBefore line rest) (hlong : limit < line.length) :
    taken limit (line ++ rest) = limit + 1 := by
  rw [taken, fitting_of_long h hlong, List.map_nil, List.sum_nil, Nat.zero_add]

theorem taken_of_short (h : EndsBefore line rest) (hshort : line.length ≤ limit) :
    taken limit (line ++ rest) = line.length + (1 + taken limit (rest.drop 1)) := by
  rw [taken, fitting_of_short h hshort, List.map_cons, List.sum_cons, taken]
  omega

theorem closing_of_long (h : EndsBefore line rest) (hlong : limit < line.length) :
    closing limit (line ++ rest) = .tooLong := by
  rw [closing, lines_append h, if_pos ⟨line, List.mem_cons_self, hlong⟩]

theorem closing_of_short (h : EndsBefore line rest) (hshort : line.length ≤ limit) :
    closing limit (line ++ rest) = closing limit (rest.drop 1) := by
  unfold closing
  rw [lines_append h]
  simp only [List.exists_mem_cons_iff, Nat.not_lt.mpr hshort, false_or]

end Lines

/-- The calls give what the lines say and then how they end. -/
theorem receiveAll_eq (limit : Nat) (bytes : List UInt8) :
    receiveAll limit bytes =
      (spoken limit bytes).map (fun line => ofLine (trim line)) ++ [closing limit bytes] := by
  unfold receiveAll
  induction bytes using induction with
  | nil => rw [readOut_nil]; rfl
  | line line rest h ih =>
    rcases Nat.lt_or_ge limit line.length with hlong | hshort
    · rw [readOut_of_long h hlong, closing_of_long h hlong, spoken, fitting_of_long h hlong]
      rfl
    · rw [closing_of_short h hshort, spoken, fitting_of_short h hshort]
      by_cases hblank : line.all isBlank = true
      · rw [readOut_of_blank h hshort hblank, ih, List.filter_cons_of_neg (by simp [hblank]), spoken]
      · rw [readOut_of_spoken h hshort hblank, List.filter_cons_of_pos (by simpa using hblank), ih,
          spoken]
        rfl

/-- What is left of the stream. -/
theorem readOut_snd (limit : Nat) (bytes : List UInt8) :
    (readOut limit bytes).2 = bytes.drop (taken limit bytes) := by
  induction bytes using induction with
  | nil => rw [readOut_nil, List.drop_nil]
  | line line rest h ih =>
    rcases Nat.lt_or_ge limit line.length with hlong | hshort
    · rw [readOut_of_long h hlong, taken_of_long h hlong,
        List.drop_append_of_le_length (Nat.succ_le_of_lt hlong)]
    · have hsnd : (readOut limit (line ++ rest)).2 = (readOut limit (rest.drop 1)).2 := by
        by_cases hblank : line.all isBlank = true
        · rw [readOut_of_blank h hshort hblank]
        · rw [readOut_of_spoken h hshort hblank]
      rw [hsnd, ih, taken_of_short h hshort, List.drop_length_add_append, List.drop_drop]

/-- What a line starts with is the start of its first line. -/
theorem lines_of_start {start : List UInt8} (hplain : lineEnd ∉ start) (hne : start ≠ [])
    (more : List UInt8) : ∃ rest next, lines (start ++ more) = (start ++ rest) :: next := by
  induction start with
  | nil => exact absurd rfl hne
  | cons b start ih =>
    obtain ⟨hb, hplain'⟩ := List.ne_and_not_mem_of_not_mem_cons hplain
    rw [List.cons_append, lines, if_neg hb.symm]
    by_cases hstart : start = []
    · subst hstart
      cases hmore : lines more with
      | nil => exact ⟨[], [], by rw [List.nil_append, hmore]; rfl⟩
      | cons line next => exact ⟨line, next, by rw [List.nil_append, hmore]; rfl⟩
    · obtain ⟨rest, next, hlines⟩ := ih hplain' hstart
      exact ⟨rest, next, by rw [hlines]; rfl⟩

/-- What is taken off a stream decides how it is read, if one of its lines is too long: what follows
does not matter. -/
theorem fitting_of_taken {limit : Nat} {stream : List UInt8}
    (hlong : ∃ line ∈ lines stream, limit < line.length) (more : List UInt8) :
    fitting limit (stream.take (taken limit stream) ++ more) = fitting limit stream ∧
      ∃ line ∈ lines (stream.take (taken limit stream) ++ more), limit < line.length := by
  induction stream using induction with
  | nil => simp [lines] at hlong
  | line line rest h ih =>
    rcases Nat.lt_or_ge limit line.length with hline | hshort
    · have htaken : (line ++ rest).take (taken limit (line ++ rest)) = line.take (limit + 1) := by
        rw [taken_of_long h hline, List.take_append_of_le_length (Nat.succ_le_of_lt hline)]
      have hlength : (line.take (limit + 1)).length = limit + 1 :=
        List.length_take_of_le (Nat.succ_le_of_lt hline)
      have hplain : lineEnd ∉ line.take (limit + 1) := fun hmem => h.1 (List.mem_of_mem_take hmem)
      obtain ⟨tail, next, hlines⟩ := lines_of_start hplain
        (List.ne_nil_of_length_pos (by omega)) more
      have hfirst : limit < (line.take (limit + 1) ++ tail).length := by
        rw [List.length_append, hlength]
        omega
      rw [htaken, fitting_of_long h hline]
      refine ⟨?_, ?_⟩
      · rw [fitting, hlines, List.takeWhile_cons_of_neg (by simpa using hfirst)]
      · rw [hlines]
        exact ⟨_, List.mem_cons_self, hfirst⟩
    · rw [lines_append h, List.exists_mem_cons_iff] at hlong
      have hrest := hlong.resolve_left (Nat.not_lt.mpr hshort)
      obtain ⟨below, rfl⟩ : ∃ below, rest = lineEnd :: below := by
        rcases h.2 with hmore | ⟨rfl, -⟩
        · exact hmore
        · simp [lines] at hrest
      obtain ⟨hfitting, hexists⟩ := ih hrest
      have htaken : (line ++ lineEnd :: below).take (taken limit (line ++ lineEnd :: below)) ++ more =
          line ++ lineEnd :: (below.take (taken limit below) ++ more) := by
        rw [taken_of_short h hshort, List.drop_succ_cons, List.drop_zero,
          List.take_length_add_append, Nat.add_comm 1, List.take_succ_cons, List.append_assoc,
          List.cons_append]
      have hends : EndsBefore line (lineEnd :: (below.take (taken limit below) ++ more)) :=
        ⟨h.1, .inl ⟨_, rfl⟩⟩
      rw [htaken, fitting_of_short hends hshort, fitting_of_short h hshort, lines_append hends,
        List.exists_mem_cons_iff]
      exact ⟨congrArg _ hfitting, .inr hexists⟩

/-! ## Written messages -/

/-- The bytes of a message without the end of its line. -/
def content (n : Node) : List UInt8 := Text.Utf8.encode n.toJson.compact

theorem bytes_append (n : Node) (rest : List UInt8) :
    bytes n ++ rest = content n ++ lineEnd :: rest := by
  rw [bytes, line, Text.Utf8.encode_append, List.append_assoc]
  rfl

/-- A message is written as one object. -/
theorem exists_content (n : Node) : ∃ inner, content n = 123 :: (inner ++ [125]) := by
  refine ⟨Text.Utf8.encode (Json.compactMembers n.members), ?_⟩
  rw [content, Node.toJson_eq]
  show Text.Utf8.encode (['\x7b'] ++ (Json.compactMembers n.members ++ ['\x7d'])) = _
  rw [Text.Utf8.encode_append, Text.Utf8.encode_append]
  rfl

theorem trim_content (n : Node) : trim (content n) = content n := by
  obtain ⟨inner, h⟩ := exists_content n
  rw [h, trim, List.dropWhile_cons_of_neg (by decide), List.reverse_cons, List.reverse_append,
    List.reverse_singleton, List.singleton_append, List.cons_append,
    List.dropWhile_cons_of_neg (by decide)]
  simp

theorem content_spoken (n : Node) : ¬ (content n).all isBlank = true := by
  rw [← trim_eq_nil_iff, trim_content]
  obtain ⟨inner, h⟩ := exists_content n
  rw [h]
  exact List.cons_ne_nil _ _

/-- There is no end of line in a written message. -/
theorem lineEnd_not_mem_content (n : Node) : lineEnd ∉ content n := by
  intro hmem
  obtain ⟨c, hc, heq⟩ := Text.Utf8.mem_encode_ascii hmem (by decide)
  have hprintable : 0x20 ≤ c.toNat := n.kept_toJson.printable c hc
  rw [heq] at hprintable
  exact absurd hprintable (by decide)

theorem endsBefore_content (n : Node) (rest : List UInt8) :
    EndsBefore (content n) (lineEnd :: rest) :=
  ⟨lineEnd_not_mem_content n, .inl ⟨rest, rfl⟩⟩

theorem ofLine_content (n : Node) :
    ofLine (content n) = if n.toJson.depth ≤ Json.maxDepth then .message n else .garbled := by
  unfold ofLine content
  rw [Node.ofBytes?_compact]
  by_cases h : n.toJson.depth ≤ Json.maxDepth
  · rw [if_pos h, if_pos h]
  · rw [if_neg h, if_neg h]

/-- Whether a message is read from the line that it is written in. -/
structure Fits (limit : Nat) (n : Node) : Prop where
  length : (content n).length ≤ limit
  depth : n.toJson.depth ≤ Json.maxDepth

/-- Messages that are written one after the other are read one after the other. -/
theorem receiveAll_bytes {limit : Nat} {ns : List Node} (h : ∀ n ∈ ns, Fits limit n) :
    receiveAll limit (ns.flatMap bytes) = ns.map .message ++ [.ended] := by
  induction ns with
  | nil =>
    rw [receiveAll, List.flatMap_nil, readOut_nil]
    rfl
  | cons n ns ih =>
    have fits := h n List.mem_cons_self
    have hrest := ih fun n hn => h n (List.mem_cons_of_mem _ hn)
    rw [receiveAll, List.flatMap_cons, bytes_append, readOut_of_spoken (endsBefore_content n _) fits.length
      (content_spoken n), trim_content, ofLine_content, if_pos fits.depth]
    show _ :: receiveAll limit (ns.flatMap bytes) = _
    rw [hrest]
    rfl

theorem lines_bytes (ns : List Node) : lines (ns.flatMap bytes) = ns.map content := by
  induction ns with
  | nil => rfl
  | cons n ns ih =>
    rw [List.flatMap_cons, bytes_append, lines_append (endsBefore_content n _), List.map_cons, ← ih]
    rfl

/-! ## Streams -/

theorem result_ofLine (limit : Nat) (line : List UInt8) :
    (ofLine (trim line)).result limit = reading line := by
  unfold ofLine reading
  cases Node.ofBytes? (Text.Utf8.decode (trim line)) <;> rfl

theorem result_closing (limit : Nat) (stream : List UInt8) :
    (closing limit stream).result limit =
      if ∃ line ∈ lines stream, limit < line.length then .error (.messageTooLarge limit)
      else .ok none := by
  unfold closing
  split <;> rfl

/-- Reading messages off a stream of any bytes, call after call, gives what is read of each line that
is not blank, in order, up to the first line that is too long, which is told, or else to the end of
the stream. Of the stream all lines before are taken off, and of the line that is too long one byte
more than the limit. So messages that are written one after the other, each short enough and not
too deep, are read as they are, and then the stream ends. -/
theorem read_by_lines (limit : Nat) (stream : List UInt8) :
    (receiveAll limit stream).map (Arrival.result limit) =
        (spoken limit stream).map reading ++
          [if ∃ line ∈ lines stream, limit < line.length then .error (.messageTooLarge limit)
            else .ok none] ∧
      (readOut limit stream).2 = stream.drop (taken limit stream) ∧
      ∀ ns : List Node, (∀ n ∈ ns, Fits limit n) →
        (receiveAll limit (ns.flatMap bytes)).map (Arrival.result limit) =
          ns.map (fun n => .ok (some n)) ++ [.ok none] := by
  refine ⟨?_, readOut_snd limit stream, fun ns fits => ?_⟩
  · rw [receiveAll_eq, List.map_append, List.map_map, List.map_singleton, result_closing]
    simp only [Function.comp_def, result_ofLine]
  · rw [receiveAll_bytes fits, List.map_append, List.map_map]
    rfl

/-- Two messages on lines of their own, for whoever takes lines of at most 64 bytes. -/
theorem read_by_lines_ping :
    let ping : Node := .branch "ping" [.leaf "id" "lamp"]
    let ack : Node := .leaf "ack" "ok"
    (∀ n ∈ [ping, ack], Fits 64 n) ∧
      (receiveAll 64 ([ping, ack].flatMap bytes)).map (Arrival.result 64) =
        [.ok (some ping), .ok (some ack), .ok none] := by
  intro ping ack
  have fits : ∀ n ∈ [ping, ack], Fits 64 n := by
    intro n hn
    have hboth : n = ping ∨ n = ack := by simpa using hn
    rcases hboth with rfl | rfl
    · exact ⟨by decide +kernel, by decide +kernel⟩
    · exact ⟨by decide +kernel, by decide +kernel⟩
  exact ⟨fits, (read_by_lines 64 []).2.2 [ping, ack] fits⟩

end Rendezvous.Framing
