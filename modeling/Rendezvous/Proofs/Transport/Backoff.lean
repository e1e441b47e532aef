import Mathlib.Algebra.BigOperators.Intervals
import Rendezvous.Transport.Backoff
/-!
# Growing waits

What is done for a lookup: it is sent until it is answered or the attempts are used up, with a wait
after each sending but the last (`BackoffPolicy.lookUp_exact`). The waits double until they reach
their bound for the first 32 attempts only. From then on the factor stays where it is, which is not
a power of two, so a wait that has not reached its bound by then never does
(`BackoffPolicy.delay_doubles_iff`).
-/

namespace Rendezvous

namespace BackoffPolicy

/-! ## The wait after an attempt -/

theorem factor_of_le {attempt : Nat} (h : attempt ≤ 32) : factor attempt = 2 ^ (attempt - 1) := by
  unfold factor
  rw [if_pos (by omega), Nat.one_shiftLeft]

theorem factor_of_gt {attempt : Nat} (h : 32 < attempt) : factor attempt = 2 ^ 32 - 1 := by
  unfold factor
  rw [if_neg (by omega)]
  rfl

theorem factor_lt {attempt : Nat} (h : 32 < attempt) : factor attempt < 2 ^ (attempt - 1) := by
  rw [factor_of_gt h]
  have hpow : 2 ^ 32 ≤ 2 ^ (attempt - 1) := Nat.pow_le_pow_right (by decide) (by omega)
  omega

section Delay

variable {p : BackoffPolicy}

/-- A product too long for a span counts as longer than the bound, as it is. -/
theorem delayAfter_nanos (bounded : p.maxDelay ≤ .longest) (attempt : Nat) :
    (p.delayAfter attempt).nanos =
      min (p.initialDelay.nanos * factor attempt) p.maxDelay.nanos := by
  have hbound : p.maxDelay.nanos ≤ Duration.longest.nanos := bounded
  unfold delayAfter Duration.scale?
  by_cases hfits : p.initialDelay.nanos * factor attempt ≤ Duration.longest.nanos
  · rw [if_pos hfits]
    exact Duration.min_nanos ..
  · rw [if_neg hfits, Nat.min_eq_right (by omega)]

/-- Whether the waits reach their bound with the greatest factor, if there is anything to wait. -/
def Reaches (p : BackoffPolicy) : Prop :=
  p.initialDelay.nanos = 0 ∨ p.maxDelay.nanos ≤ p.initialDelay.nanos * (2 ^ 32 - 1)

instance (p : BackoffPolicy) : Decidable p.Reaches := inferInstanceAs (Decidable (_ ∨ _))

/-- Past the greatest factor a wait is too short exactly if it has not reached the bound. -/
theorem min_mul_eq_iff {d bound low high : Nat} (h : low < high) :
    min (d * low) bound = min (d * high) bound ↔ d = 0 ∨ bound ≤ d * low := by
  rcases Nat.eq_zero_or_pos d with rfl | hd
  · simp
  · have hlt : d * low < d * high := Nat.mul_lt_mul_of_pos_left h hd
    omega

theorem delay_exact_iff (bounded : p.maxDelay ≤ .longest) (attempt : Nat) :
    (p.delayAfter attempt).nanos =
        min (p.initialDelay.nanos * 2 ^ (attempt - 1)) p.maxDelay.nanos ↔
      attempt ≤ 32 ∨ p.Reaches := by
  rw [delayAfter_nanos bounded]
  rcases Nat.lt_or_ge 32 attempt with hlate | hearly
  · rw [min_mul_eq_iff (factor_lt hlate), factor_of_gt hlate, Reaches]
    omega
  · rw [factor_of_le hearly]
    exact iff_of_true rfl (.inl hearly)

theorem delay_twice_iff (bounded : p.maxDelay ≤ .longest) {attempt : Nat} (first : 1 ≤ attempt) :
    (p.delayAfter (attempt + 1)).nanos =
        min (2 * (p.delayAfter attempt).nanos) p.maxDelay.nanos ↔
      attempt < 32 ∨ p.Reaches := by
  rw [delayAfter_nanos bounded, delayAfter_nanos bounded]
  rcases Nat.lt_or_ge 32 attempt with hlate | hearly
  · rw [factor_of_gt hlate, factor_of_gt (by omega), Reaches]
    omega
  · have hpow : 2 ^ attempt = 2 * 2 ^ (attempt - 1) := by
      rw [← Nat.pow_succ', Nat.succ_eq_add_one, Nat.sub_add_cancel first]
    have htwice : p.initialDelay.nanos * 2 ^ attempt =
        2 * (p.initialDelay.nanos * 2 ^ (attempt - 1)) := by
      rw [hpow, Nat.mul_left_comm]
    rw [factor_of_le hearly]
    rcases Nat.lt_or_eq_of_le hearly with hlt | rfl
    · rw [factor_of_le (by omega), Nat.add_sub_cancel, htwice]
      omega
    · rw [factor_of_gt (by decide), Reaches]
      omega

/-- The wait after an attempt is the first wait, doubled for each attempt before, or the bound, and
the wait after the next attempt is twice as long or the bound, exactly if the attempt is one of the
first 32 (and the next one too) or the bound is within reach of the greatest factor. After any later
attempt it is the first wait times that factor, or the bound. -/
theorem delay_doubles_iff (p : BackoffPolicy) (bounded : p.maxDelay ≤ .longest) (attempt : Nat)
    (first : 1 ≤ attempt) :
    let d := p.initialDelay.nanos
    let bound := p.maxDelay.nanos
    ((p.delayAfter attempt).nanos = min (d * 2 ^ (attempt - 1)) bound ↔
      attempt ≤ 32 ∨ p.Reaches) ∧
    ((p.delayAfter (attempt + 1)).nanos = min (2 * (p.delayAfter attempt).nanos) bound ↔
      attempt < 32 ∨ p.Reaches) ∧
    (32 < attempt → (p.delayAfter attempt).nanos = min (d * (2 ^ 32 - 1)) bound) := by
  intro d bound
  refine ⟨delay_exact_iff bounded attempt, delay_twice_iff bounded first, fun late => ?_⟩
  rw [delayAfter_nanos bounded, factor_of_gt late]

/-- A policy with a bound that its waits never reach. -/
def patient : BackoffPolicy := { initialDelay := .ofMillis 1, maxDelay := .ofMillis (2 ^ 33) }

/-- The 33rd wait is a millisecond too short, and the 34th no longer than it. -/
theorem delay_doubles_iff_patient :
    patient.maxDelay ≤ .longest ∧
    (patient.delayAfter 33).nanos = 4294967295000000 ∧
    (patient.delayAfter 33).nanos ≠
      min (patient.initialDelay.nanos * 2 ^ 32) patient.maxDelay.nanos ∧
    (patient.delayAfter 34).nanos ≠
      min (2 * (patient.delayAfter 33).nanos) patient.maxDelay.nanos := by
  have bounded : patient.maxDelay ≤ .longest := by decide
  obtain ⟨exact_iff, twice_iff, late⟩ := delay_doubles_iff patient bounded 33 (by decide)
  refine ⟨bounded, ?_, fun h => ?_, fun h => ?_⟩
  · exact (late (by decide)).trans (by decide)
  · exact absurd (exact_iff.mp h) (by decide)
  · exact absurd (twice_iff.mp h) (by decide)

end Delay

/-! ## What is done for a lookup -/

/-- The results of the sendings of a lookup, by their attempts. -/
abbrev Answers : Type := Nat → Except TransportError (Option Node)

/-- Whether there is no reply to an attempt. -/
def Answers.Silent (answers : Answers) (attempt : Nat) : Prop :=
  ∀ reply, answers attempt ≠ .ok (some reply)

/-- What is done for attempts that are not the last ones, counted from the first of them. -/
def rounds (p : BackoffPolicy) (lookup : Node) (first attempts : Nat) : List LookupStep :=
  (List.range' first attempts).flatMap fun attempt =>
    [.send lookup, .pause (p.delayAfter attempt)]

/-- A lookup sent so many times, with a wait after each time but the last. -/
def sendings (p : BackoffPolicy) (lookup : Node) (attempts : Nat) : List LookupStep :=
  p.rounds lookup 1 (attempts - 1) ++ [.send lookup]

section LookUp

variable {p : BackoffPolicy} {answers : Answers} {lookup : Node}

theorem lookUpFrom_of_answer {attempt : Nat} {reply : Node}
    (h : answers attempt = .ok (some reply)) (left : Nat) :
    p.lookUpFrom answers lookup attempt left = ⟨.ok reply, [.send lookup]⟩ := by
  cases left <;> simp only [lookUpFrom, h]

theorem lookUpFrom_last {attempt : Nat} (silent : answers.Silent attempt) :
    p.lookUpFrom answers lookup attempt 0 =
      ⟨.error (.lookupExhausted attempt), [.send lookup]⟩ := by
  unfold lookUpFrom
  split
  · next reply h => exact absurd h (silent reply)
  · rfl

theorem lookUpFrom_next {attempt : Nat} (silent : answers.Silent attempt) (left : Nat) :
    p.lookUpFrom answers lookup attempt (left + 1) =
      let rest := p.lookUpFrom answers lookup (attempt + 1) left
      { rest with steps := .send lookup :: .pause (p.delayAfter attempt) :: rest.steps } := by
  rw [lookUpFrom]
  split
  · next reply h => exact absurd h (silent reply)
  · rfl

/-- Attempts without a reply are passed, each by a sending and a wait. -/
theorem lookUpFrom_of_silence {attempt left n : Nat} (h : n ≤ left)
    (silent : ∀ i < n, answers.Silent (attempt + i)) :
    p.lookUpFrom answers lookup attempt left =
      let rest := p.lookUpFrom answers lookup (attempt + n) (left - n)
      { rest with steps := p.rounds lookup attempt n ++ rest.steps } := by
  induction n generalizing attempt left with
  | zero => rfl
  | succ n ih =>
    obtain ⟨left, rfl⟩ : ∃ l, left = l + 1 := ⟨left - 1, by omega⟩
    have now : answers.Silent attempt := silent 0 (by omega)
    have later : ∀ i < n, answers.Silent (attempt + 1 + i) := by
      intro i hi
      rw [Nat.add_right_comm]
      exact silent (i + 1) (by omega)
    rw [lookUpFrom_next now, ih (by omega) later, Nat.add_sub_add_right,
      Nat.add_right_comm attempt 1 n]
    rfl

/-- Whether a lookup ends with a result after so many attempts, which have all sent the same. -/
structure Ends (p : BackoffPolicy) (lookup : Node) (attempts : Nat) (result : Delivery)
    (r : LookupReport) : Prop where
  result : r.result = result
  steps : r.steps = p.sendings lookup attempts
  messages : r.messages = List.replicate attempts lookup
  sent : r.sent = attempts
  waited : r.waited.nanos = ∑ attempt ∈ Finset.Ico 1 attempts, (p.delayAfter attempt).nanos

theorem messages_rounds (p : BackoffPolicy) (lookup : Node) (first attempts : Nat) :
    (p.rounds lookup first attempts).filterMap LookupStep.message? =
      List.replicate attempts lookup := by
  induction attempts generalizing first with
  | zero => rfl
  | succ n ih => exact congrArg (lookup :: ·) (ih (first + 1))

theorem waited_rounds (p : BackoffPolicy) (lookup : Node) (first attempts : Nat) (d : Duration) :
    (((p.rounds lookup first attempts).map LookupStep.wait).foldr (· + ·) d).nanos =
      ∑ attempt ∈ Finset.Ico first (first + attempts), (p.delayAfter attempt).nanos + d.nanos := by
  induction attempts generalizing first with
  | zero => simp [rounds]
  | succ n ih =>
    have hround : p.rounds lookup first (n + 1) =
        .send lookup :: .pause (p.delayAfter first) :: p.rounds lookup (first + 1) n := rfl
    rw [hround, Finset.sum_eq_sum_Ico_succ_bot (by omega), Nat.add_assoc, Nat.add_comm n 1,
      ← Nat.add_assoc first 1 n, ← ih (first + 1)]
    simp only [List.map_cons, List.foldr_cons, LookupStep.wait, Duration.add_nanos]
    omega

theorem ends_sendings (p : BackoffPolicy) (lookup : Node) {attempts : Nat} (h : 1 ≤ attempts)
    (result : Delivery) : p.Ends lookup attempts result ⟨result, p.sendings lookup attempts⟩ := by
  obtain ⟨n, rfl⟩ : ∃ n, attempts = n + 1 := ⟨attempts - 1, by omega⟩
  have messages : (p.sendings lookup (n + 1)).filterMap LookupStep.message? =
      List.replicate (n + 1) lookup := by
    rw [sendings, List.filterMap_append, messages_rounds, List.replicate_succ']
    rfl
  refine ⟨rfl, rfl, messages, ?_, ?_⟩
  · exact (congrArg List.length messages).trans List.length_replicate
  · rw [LookupReport.waited, sendings, List.map_append, List.foldr_append, waited_rounds,
      Nat.add_comm 1]
    rfl

/-- Whether an attempt is the first one that is answered by a reply. -/
structure Answers.First (answers : Answers) (attempt : Nat) (reply : Node) : Prop where
  counted : 1 ≤ attempt
  answered : answers attempt = .ok (some reply)
  silent : ∀ earlier, 1 ≤ earlier → earlier < attempt → answers.Silent earlier

/-- Unless a reply is the first one at some attempt, all attempts up to there are silent. -/
theorem silent_of_no_first {attempts : Nat}
    (h : ∀ attempt reply, answers.First attempt reply → attempts < attempt) {attempt : Nat}
    (counted : 1 ≤ attempt) (le : attempt ≤ attempts) : answers.Silent attempt := by
  induction attempt using Nat.strong_induction_on with
  | _ attempt ih =>
    intro reply answered
    have first : answers.First attempt reply :=
      ⟨counted, answered, fun earlier hearlier hlt => ih earlier hlt hearlier (by omega)⟩
    have hlt := h attempt reply first
    omega

end LookUp

/-- If an attempt is the first one that is answered, and there are as many attempts, a lookup ends
there with this reply; otherwise it ends in failure after all attempts. Either way it has been sent
once for each attempt, with the wait that belongs to the attempt after each but the last one. -/
theorem lookUp_exact (p : BackoffPolicy) (answers : Answers) (lookup : Node) :
    let attempts := max 1 p.maxAttempts
    let r := p.lookUp answers lookup
    (∀ attempt reply, answers.First attempt reply → attempt ≤ attempts →
      p.Ends lookup attempt (.ok reply) r) ∧
    ((∀ attempt reply, answers.First attempt reply → attempts < attempt) →
      p.Ends lookup attempts (.error (.lookupExhausted attempts)) r) := by
  intro attempts r
  have hattempts : attempts = 1 + (p.maxAttempts - 1) := by
    show max 1 p.maxAttempts = _
    omega
  constructor
  · intro attempt reply first le
    obtain ⟨n, rfl⟩ : ∃ n, attempt = 1 + n := ⟨attempt - 1, by have := first.counted; omega⟩
    have silent : ∀ i < n, answers.Silent (1 + i) :=
      fun i hi => first.silent (1 + i) (by omega) (by omega)
    have hr : r = ⟨.ok reply, p.sendings lookup (1 + n)⟩ := by
      show p.lookUpFrom answers lookup 1 (p.maxAttempts - 1) = _
      rw [lookUpFrom_of_silence (by omega) silent, lookUpFrom_of_answer first.answered, sendings,
        Nat.add_sub_cancel_left]
    rw [hr]
    exact ends_sendings p lookup first.counted _
  · intro none
    have silent : ∀ i, 1 + i ≤ attempts → answers.Silent (1 + i) :=
      fun i hi => silent_of_no_first none (by omega) hi
    have hr : r = ⟨.error (.lookupExhausted attempts), p.sendings lookup attempts⟩ := by
      show p.lookUpFrom answers lookup 1 (p.maxAttempts - 1) = _
      rw [lookUpFrom_of_silence (Nat.le_refl _) fun i hi => silent i (by omega), Nat.sub_self,
        lookUpFrom_last (silent _ (by omega)), ← hattempts, sendings, hattempts,
        Nat.add_sub_cancel_left]
    rw [hr]
    exact ends_sendings p lookup (by omega) _

/-- A failure, silence, and then a reply. -/
def slowAnswers : Answers
  | 1 => .error (.io "no route")
  | 2 => .ok none
  | _ => .ok (some { name := "discoverer" })

/-- The third attempt is answered in time for one policy and too late for another. -/
theorem lookUp_exact_slow :
    let lookup : Node := { name := "lookupDiscoverer" }
    let reply : Node := { name := "discoverer" }
    slowAnswers.First 3 reply ∧
    Ends {} lookup 3 (.ok reply) (lookUp {} slowAnswers lookup) ∧
    Ends { maxAttempts := 2 } lookup 2 (.error (.lookupExhausted 2))
      (lookUp { maxAttempts := 2 } slowAnswers lookup) ∧
    (lookUp {} slowAnswers lookup).waited = .ofMillis 1500 := by
  intro lookup reply
  have silent : ∀ attempt, 1 ≤ attempt → attempt < 3 → slowAnswers.Silent attempt := by
    intro attempt counted lt r
    obtain rfl | rfl : attempt = 1 ∨ attempt = 2 := by omega
    · exact nofun
    · exact nofun
  have first : slowAnswers.First 3 reply := ⟨by decide, rfl, silent⟩
  refine ⟨first, (lookUp_exact {} slowAnswers lookup).1 3 reply first (by decide),
    (lookUp_exact { maxAttempts := 2 } slowAnswers lookup).2 fun attempt r late => ?_, by decide⟩
  by_contra early
  exact silent attempt late.counted (by have : attempt ≤ 2 := Nat.le_of_not_lt early; omega) r
    late.answered

end BackoffPolicy

end Rendezvous
