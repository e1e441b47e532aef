import Rendezvous.Proofs.Json.Compact
import Rendezvous.Proofs.Json.Decoder
import Rendezvous.Proofs.Protocol.Codec
/-!
# The two forms of a lease

A lease is carried in whole milliseconds in a word of 64 bits, in messages modulo the size of the
word (`Lease.sent`) and in its stored form up to the greatest one (`Lease.kept`). The two forms are
read as the same lease exactly if the milliseconds fit a word, or come out as its greatest value
(`Duration.Carried`); otherwise the message names a shorter lease, and even a shorter one than for
some spans that are not as long. What has been read once stays as it is in either form.
-/

namespace Rendezvous

namespace Duration

/-- Whether the milliseconds of a span are modulo the size of a word what they are up to its greatest
value. -/
def Carried (d : Duration) : Prop := d.millis < UInt64.size ∨ UInt64.size ∣ d.millis + 1

theorem millis_mono {d e : Duration} (h : d ≤ e) : d.millis ≤ e.millis := Nat.div_le_div_right h

theorem ofMillis_le_ofMillis {m n : Nat} : ofMillis m ≤ ofMillis n ↔ m ≤ n :=
  Nat.mul_le_mul_right_iff (by decide)

theorem ofMillis_millis_le (d : Duration) : ofMillis d.millis ≤ d := Nat.div_mul_le_self _ _

theorem wireMillis_le_storedMillis (d : Duration) : d.wireMillis ≤ d.storedMillis :=
  Nat.le_min.mpr ⟨Nat.mod_le _ _, Nat.le_sub_one_of_lt d.wireMillis_lt⟩

theorem storedMillis_mono {d e : Duration} (h : d ≤ e) : d.storedMillis ≤ e.storedMillis := by
  have hmillis := millis_mono h
  unfold storedMillis
  omega

theorem wireMillis_of_lt {d : Duration} (h : d.millis < UInt64.size) : d.wireMillis = d.millis :=
  Nat.mod_eq_of_lt h

/-- A number comes before a multiple of the size of a word exactly if it ends in the greatest word. -/
theorem wireMillis_eq_greatest_iff {d : Duration} :
    d.wireMillis = UInt64.size - 1 ↔ UInt64.size ∣ d.millis + 1 := by
  unfold wireMillis
  rw [show UInt64.size = 18446744073709551616 from rfl]
  omega

theorem wireMillis_eq_storedMillis_iff {d : Duration} :
    d.wireMillis = d.storedMillis ↔ d.Carried := by
  unfold Carried storedMillis
  rw [← wireMillis_eq_greatest_iff]
  by_cases h : d.millis < UInt64.size
  · rw [wireMillis_of_lt h]
    omega
  · have hlt := d.wireMillis_lt
    omega

/-- No shorter span has more milliseconds in a message exactly if the span is carried. -/
theorem wireMillis_mono_iff {d : Duration} :
    (∀ e ≤ d, e.wireMillis ≤ d.wireMillis) ↔ d.Carried := by
  constructor
  · intro mono
    refine or_iff_not_imp_left.mpr fun hlarge => wireMillis_eq_greatest_iff.mp ?_
    -- The span of as many milliseconds as the greatest word is not longer.
    have hgreatest : UInt64.size - 1 < UInt64.size := by decide
    have hle : ofMillis (UInt64.size - 1) ≤ d := by
      have hmillis : UInt64.size - 1 ≤ d.millis := by omega
      exact Nat.le_trans (ofMillis_le_ofMillis.mpr hmillis) d.ofMillis_millis_le
    have hbound := mono _ hle
    rw [wireMillis_ofMillis hgreatest] at hbound
    exact Nat.le_antisymm (Nat.le_sub_one_of_lt d.wireMillis_lt) hbound
  · rintro (hfits | hends) e he
    · have hmillis := millis_mono he
      rw [wireMillis_of_lt hfits, wireMillis_of_lt (Nat.lt_of_le_of_lt hmillis hfits)]
      exact hmillis
    · rw [wireMillis_eq_greatest_iff.mpr hends]
      exact Nat.le_sub_one_of_lt e.wireMillis_lt

theorem decoder_toJson (d : Duration) (depth : Nat) :
    decoder Json.exactLeaves depth d.toJson = some (ofMillis d.storedMillis) := by
  simp only [decoder, Json.exactLeaves, toJson, Json.asNatural_natural d.storedMillis_lt,
    Option.map_some]

end Duration

namespace Lease

/-- What a message makes of a lease. -/
def sent (l : Lease) : Lease := ofMillis l.duration.wireMillis

/-- What its stored form makes of a lease. -/
def kept (l : Lease) : Lease := ofMillis l.duration.storedMillis

theorem ofMillis_inj {m n : Nat} : ofMillis m = ofMillis n ↔ m = n := by
  constructor
  · intro h
    have hmillis := congrArg (fun l => l.duration.millis) h
    simpa only [ofMillis, Duration.millis_ofMillis] using hmillis
  · rintro rfl
    rfl

theorem proper_sent (l : Lease) : l.sent.Proper := ⟨_, l.duration.wireMillis_lt, rfl⟩

theorem proper_kept (l : Lease) : l.kept.Proper := ⟨_, l.duration.storedMillis_lt, rfl⟩

theorem Proper.sent_eq {l : Lease} (h : l.Proper) : l.sent = l := by
  obtain ⟨ms, hms, rfl⟩ := h
  exact congrArg ofMillis (Duration.wireMillis_ofMillis hms)

theorem Proper.kept_eq {l : Lease} (h : l.Proper) : l.kept = l := by
  obtain ⟨ms, hms, rfl⟩ := h
  exact congrArg ofMillis (Duration.storedMillis_ofMillis hms)

theorem toNode_sent (l : Lease) : l.sent.toNode = l.toNode := by
  have hwire : l.sent.duration.wireMillis = l.duration.wireMillis :=
    Duration.wireMillis_ofMillis l.duration.wireMillis_lt
  rw [toNode, hwire, toNode]

theorem toJson_kept (l : Lease) : l.kept.toJson = l.toJson := by
  have hstored : l.kept.duration.storedMillis = l.duration.storedMillis :=
    Duration.storedMillis_ofMillis l.duration.storedMillis_lt
  rw [toJson, toJson, Duration.toJson, Duration.toJson, hstored]

/-- A message is read whatever lease it was made of. -/
theorem ofNode_toNode_eq (l : Lease) : ofNode l.toNode = .ok l.sent := by
  rw [← l.toNode_sent]
  exact ofNode_toNode l.proper_sent

theorem ofJson?_eq (depth : Nat) (j : Json) :
    ofJson? depth j = (Json.record? ["duration"] depth j).bind fun r =>
      (r.required "duration" (Duration.decoder Json.exactLeaves)).bind fun d => some ⟨d⟩ := rfl

/-- What the stored form is decoded to, in whatever text it was. -/
theorem ofJson?_toJson (l : Lease) (depth : Nat) : ofJson? (depth + 1) l.toJson = some l.kept := by
  let r : Json.Record := ⟨depth, false, [("duration", l.duration.toJson)]⟩
  have hrecord : Json.record? ["duration"] (depth + 1) l.toJson = some r := by
    unfold toJson
    exact Json.record?_object ["duration"] _ rfl (by decide) depth
  have hduration : r.required "duration" (Duration.decoder Json.exactLeaves) =
      some (.ofMillis l.duration.storedMillis) :=
    (Json.Record.required_of_find? rfl).trans (l.duration.decoder_toJson depth)
  rw [ofJson?_eq, hrecord, Option.bind_some, hduration, Option.bind_some]
  rfl

theorem decodeText?_pretty (l : Lease) :
    Json.decodeText? ofJson? (String.ofList l.toJson.pretty) = some l.kept := by
  have hreads : Json.Reads l.toJson l.toJson :=
    .object (.cons ⟨rfl, Json.reads_integer (Json.fitsWord_natCast l.duration.storedMillis_lt)⟩ .nil)
  exact Json.ReadsAs.decodeText? ⟨_, hreads, l.ofJson?_toJson 126⟩

theorem decodeText?_compact (l : Lease) :
    Json.decodeText? ofJson? (String.ofList l.toJson.compact) = some l.kept := by
  unfold Json.decodeText? Json.ofText?
  rw [String.toList_ofList]
  have hread : Json.read (l.toJson.compact.map some) = some l.toJson :=
    Json.read_compact_number "duration" (Json.fitsWord_natCast l.duration.storedMillis_lt)
  rw [hread, Option.bind_some]
  exact l.ofJson?_toJson 126

/-- A lease comes back from its stored form, in one line or over lines, in whole milliseconds of
which there are at most the greatest word; and from a message, too, as the lease that it names. This
is never longer, and the same exactly if the milliseconds are carried. The stored form is monotone;
messages are, up to a lease, exactly if this is carried. What has been read once has the form that it
was read from, and is read as it is from both. -/
theorem encodings_agree_iff (l : Lease) :
    (Json.decodeText? ofJson? (String.ofList l.toJson.compact) = some l.kept ∧
      Json.decodeText? ofJson? (String.ofList l.toJson.pretty) = some l.kept ∧
      l.kept = ofMillis (min l.duration.millis (UInt64.size - 1))) ∧
    (ofNode l.toNode = .ok l.sent ∧ l.sent.duration ≤ l.kept.duration ∧
      (l.sent = l.kept ↔ l.duration.Carried)) ∧
    (∀ s : Lease, s.duration ≤ l.duration → s.kept.duration ≤ l.kept.duration) ∧
    ((∀ s : Lease, s.duration ≤ l.duration → s.sent.duration ≤ l.sent.duration) ↔
      l.duration.Carried) ∧
    (l.kept.toJson = l.toJson ∧ l.sent.toNode = l.toNode ∧
      ∀ r ∈ [l.sent, l.kept], r.sent = r ∧ r.kept = r) := by
  refine ⟨⟨l.decodeText?_compact, l.decodeText?_pretty, rfl⟩, ⟨l.ofNode_toNode_eq, ?_, ?_⟩,
    fun s hs => ?_, ?_, l.toJson_kept, l.toNode_sent, ?_⟩
  · exact Duration.ofMillis_le_ofMillis.mpr l.duration.wireMillis_le_storedMillis
  · exact ofMillis_inj.trans Duration.wireMillis_eq_storedMillis_iff
  · exact Duration.ofMillis_le_ofMillis.mpr (Duration.storedMillis_mono hs)
  · refine Iff.trans ?_ Duration.wireMillis_mono_iff
    constructor
    · intro mono d hd
      exact Duration.ofMillis_le_ofMillis.mp (mono ⟨d⟩ hd)
    · intro mono s hs
      exact Duration.ofMillis_le_ofMillis.mpr (mono s.duration hs)
  · intro r hr
    rcases List.mem_cons.mp hr with rfl | hr
    · exact ⟨l.proper_sent.sent_eq, l.proper_sent.kept_eq⟩
    · rw [List.mem_singleton.mp hr]
      exact ⟨l.proper_kept.sent_eq, l.proper_kept.kept_eq⟩

/-- The least whole number of seconds that is not carried, more than five hundred million years. -/
def aeons : Lease := ⟨.ofSeconds 18446744073709552⟩

/-- A message makes less than a second of it, the stored form the longest lease there is. -/
theorem encodings_agree_iff_aeons :
    aeons.duration ≤ Duration.longest ∧ ofNode aeons.toNode = .ok (ofMillis 384) ∧
      Json.decodeText? ofJson? (String.ofList aeons.toJson.compact) =
        some (ofMillis (UInt64.size - 1)) ∧
      ¬ aeons.duration.Carried := by
  obtain ⟨⟨hkept, -, -⟩, ⟨hsent, -, hsame⟩, -⟩ := encodings_agree_iff aeons
  have hdiffer : ¬ aeons.sent = aeons.kept := by decide
  exact ⟨by decide, hsent, hkept, mt hsame.mpr hdiffer⟩

end Lease

end Rendezvous
