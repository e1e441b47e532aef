import Mathlib.Algebra.Group.Nat.Defs
import Rendezvous.Component.Identity
import Rendezvous.Proofs.Text.Written
/-!
# Identifiers that are read back

The written form of an identifier is read as the identifier, with the mark of subscriptions before
it too (`SubscriptionId.ofText?_text`).
-/

namespace Rendezvous

namespace Uuid

theorem length_hexDigits (n count : Nat) : (hexDigits n count).length = count := by
  induction count generalizing n with
  | zero => rfl
  | succ count ih => simp [hexDigits, ih]

theorem readHex_append (acc : Nat) (cs ds : List Char) :
    readHex acc (cs ++ ds) = (readHex acc cs).bind fun acc => readHex acc ds := by
  induction cs generalizing acc with
  | nil => rfl
  | cons c cs ih =>
    rw [List.cons_append, readHex, readHex]
    cases Text.hexValue? c with
    | none => rfl
    | some d => exact ih _

theorem hexValue?_hexDigit {d : Nat} (h : d < 16) : Text.hexValue? (hexDigit d) = some d := by
  have hall : ∀ d < 16, Text.hexValue? (hexDigit d) = some d := by decide
  exact hall d h

/-- Of a number the last digits are read back, in front of which there may be others. -/
theorem readHex_hexDigits (acc n count : Nat) :
    readHex acc (hexDigits n count) = some (acc * 16 ^ count + n % 16 ^ count) := by
  induction count generalizing n with
  | zero => simp [hexDigits, readHex, Nat.mod_one]
  | succ count ih =>
    have hdigit : n % 16 < 16 := Nat.mod_lt _ (by decide)
    have hmod : n % 16 ^ (count + 1) = n % 16 + 16 * (n / 16 % 16 ^ count) := by
      rw [Nat.pow_succ', Nat.mod_mul]
    rw [hexDigits, readHex_append, ih, Option.bind_some, readHex, hexValue?_hexDigit hdigit]
    simp only [readHex]
    rw [hmod, Nat.pow_succ]
    congr 1
    generalize 16 ^ count = base
    generalize n / 16 % base = high
    generalize n % 16 = low
    rw [Nat.add_mul, Nat.mul_assoc]
    omega

theorem hexDigit_ne_hyphen {d : Nat} (h : d < 16) : hexDigit d ≠ '-' := by
  have hall : ∀ d < 16, hexDigit d ≠ '-' := by decide
  exact hall d h

theorem ne_hyphen_of_mem {n count : Nat} {c : Char} (h : c ∈ hexDigits n count) : c ≠ '-' := by
  induction count generalizing n with
  | zero => cases h
  | succ count ih =>
    rcases List.mem_append.mp h with h | h
    · exact ih h
    · rw [List.mem_singleton.mp h]
      exact hexDigit_ne_hyphen (Nat.mod_lt _ (by decide))

/-- The five groups joined by hyphens. -/
def grouped (cs : List Char) : List Char :=
  cs.take 8 ++ '-' :: (cs.drop 8).take 4 ++ '-' :: (cs.drop 12).take 4 ++
    '-' :: (cs.drop 16).take 4 ++ '-' :: cs.drop 20

theorem toList_text (u : Uuid) : u.text.toList = grouped (hexDigits u.number.val 32) := by
  rw [text, String.toList_ofList, grouped]

theorem length_grouped {cs : List Char} (h : cs.length = 32) : (grouped cs).length = 36 := by
  simp [grouped, h]

theorem hyphens_grouped {cs : List Char} (h : cs.length = 32) :
    hyphenPlaces.all (fun i => (grouped cs)[i]? = some '-') = true := by
  simp [hyphenPlaces, grouped, List.getElem?_append, h]

/-- Without the hyphens the digits are left. -/
theorem filter_grouped {cs : List Char} (h : ∀ c ∈ cs, c ≠ '-') :
    (grouped cs).filter (· ≠ '-') = cs := by
  have hkeep : ∀ ds : List Char, (∀ c ∈ ds, c ∈ cs) → ds.filter (· ≠ '-') = ds := by
    intro ds hds
    exact List.filter_eq_self.mpr fun c hc => by simpa using h c (hds c hc)
  have hhyphen : ∀ ds : List Char, ('-' :: ds).filter (· ≠ '-') = ds.filter (· ≠ '-') := fun _ =>
    List.filter_cons_of_neg (by decide)
  have hgroup : ∀ a k, (cs.drop a).take k ++ cs.drop (a + k) = cs.drop a := by
    intro a k
    rw [← List.drop_drop, List.take_append_drop]
  have hinner : ∀ a k, ∀ c ∈ (cs.drop a).take k, c ∈ cs := fun a k c hc =>
    List.mem_of_mem_drop (List.mem_of_mem_take hc)
  unfold grouped
  rw [List.filter_append, List.filter_append, List.filter_append, List.filter_append, hhyphen,
    hhyphen, hhyphen, hhyphen, hkeep _ (hinner 8 4), hkeep _ (hinner 12 4), hkeep _ (hinner 16 4),
    hkeep _ (fun c hc => List.mem_of_mem_take hc), hkeep _ (fun c hc => List.mem_of_mem_drop hc)]
  rw [List.append_assoc, hgroup 16 4, List.append_assoc, hgroup 12 4, List.append_assoc, hgroup 8 4,
    List.take_append_drop]

theorem ofGroups?_grouped (u : Uuid) :
    ofGroups? (grouped (hexDigits u.number.val 32)) = some u := by
  have hlength := length_hexDigits u.number.val 32
  have hcount : 16 ^ 32 = count := by decide
  have hnumber : readHex 0 (hexDigits u.number.val 32) = some u.number.val := by
    rw [readHex_hexDigits, hcount, Nat.mod_eq_of_lt u.number.isLt, Nat.zero_mul, Nat.zero_add]
  unfold ofGroups?
  rw [if_pos ⟨length_grouped hlength, hyphens_grouped hlength⟩,
    filter_grouped fun c hc => ne_hyphen_of_mem hc, ofDigits?, if_pos hlength, hnumber]
  exact dif_pos u.number.isLt

/-- A text of this length is read as groups, for the other forms are of other lengths. -/
theorem ofText?_of_length {s : String} (h : s.toList.length = 36) :
    ofText? s = ofGroups? s.toList := by
  have hplain : ¬s.toList.length = 32 := by omega
  unfold ofText?
  dsimp only
  rw [if_neg hplain, if_neg (fun hbraces => by omega), if_neg (fun hurn => by omega)]

theorem ofText?_text (u : Uuid) : ofText? u.text = some u := by
  have hlength : u.text.toList.length = 36 := by
    rw [toList_text, length_grouped (length_hexDigits ..)]
  rw [ofText?_of_length hlength, toList_text, ofGroups?_grouped]

end Uuid

namespace SubscriptionId

theorem ofText?_text (id : SubscriptionId) : ofText? id.text = some id := by
  have htext : id.text.toList = mark ++ id.uuid.text.toList := by rw [text, String.toList_ofList]
  have hmark : mark.isPrefixOf (mark ++ id.uuid.text.toList) = true := by simp
  have hrest : (mark ++ id.uuid.text.toList).drop mark.length = id.uuid.text.toList :=
    List.drop_left
  unfold ofText?
  simp only [htext]
  rw [if_pos hmark, hrest, String.ofList_toList, Uuid.ofText?_text]
  rfl

end SubscriptionId

end Rendezvous
