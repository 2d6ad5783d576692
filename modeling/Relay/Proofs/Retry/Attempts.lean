import Relay.Retry

/-!
# The attempts of a run

A run goes on as long as its attempts end in faults that may be tried again, and attempts are left.

* `ending`    how an attempt ends under the bound on its time;
* `Repeats`   what holds of a run with `k` repetitions: each attempt but the last could be tried again,
  the outcome is that of the last, and there was a reason to stop;
* `runFrom_rec`   the induction on a run: what holds of a last attempt and is kept when one comes before;
* `exists_repeats`   every run is one with some `k`, at most the number of attempts that are left;
* `run_repeats`      so under the budget of a policy there are at most `retryCount` repetitions.
-/

namespace Relay.Retry

section
variable {α : Type} (limit : Option UInt64) (operation : Nat → Attempt α)

def ending (n : Nat) : Except Fault α := (bounded limit n (operation n)).outcome

def MayRepeat (o : Except Fault α) : Prop := ∃ fault, o = .error fault ∧ fault.isRetryable = true

theorem mayRepeat_error_iff (fault : Fault) :
    MayRepeat (.error fault : Except Fault α) ↔ fault.isRetryable = true := by
  constructor
  · rintro ⟨other, h, hr⟩
    cases h
    exact hr
  · exact fun h => ⟨fault, rfl, h⟩

/-- a run from the attempt `first` on, with `k` repetitions where `left` are allowed -/
structure Repeats (first left k : Nat) (r : Run α) : Prop where
  le : k ≤ left
  attempts : r.attempts = k + 1
  again : ∀ i < k, MayRepeat (ending limit operation (first + i))
  outcome : r.outcome = ending limit operation (first + k)
  enough : k = left ∨ ¬MayRepeat r.outcome

/-! ## one attempt -/

theorem runFrom_zero (pause : Nat → Nat) (n now : Nat) :
    runFrom limit pause operation 0 n now =
      ⟨ending limit operation n, [now], now + (bounded limit n (operation n)).durationMs⟩ := by
  unfold runFrom ending
  cases ho : (bounded limit n (operation n)).outcome <;> simp only [ho]

theorem runFrom_stop (pause : Nat → Nat) (left n now : Nat)
    (h : ¬MayRepeat (ending limit operation n)) :
    runFrom limit pause operation (left + 1) n now =
      ⟨ending limit operation n, [now], now + (bounded limit n (operation n)).durationMs⟩ := by
  unfold ending at h
  unfold runFrom ending
  cases ho : (bounded limit n (operation n)).outcome with
  | ok a => simp only [ho]
  | error fault =>
    rw [ho, mayRepeat_error_iff] at h
    simp only [ho, h, Bool.false_eq_true, if_false]

theorem runFrom_repeat (pause : Nat → Nat) (left n now : Nat)
    (h : MayRepeat (ending limit operation n)) :
    runFrom limit pause operation (left + 1) n now =
      let rest := runFrom limit pause operation left (n + 1)
        (now + (bounded limit n (operation n)).durationMs + pause n)
      { rest with starts := now :: rest.starts } := by
  unfold ending at h
  obtain ⟨fault, ho, hr⟩ := h
  rw [runFrom.eq_def limit pause operation (left + 1) n now]
  simp only [ho, hr, if_true]

/-- what holds of a last attempt, and is kept when an attempt comes before it, holds of every run -/
theorem runFrom_rec {pause : Nat → Nat} {motive : (left first now : Nat) → Run α → Prop}
    (last : ∀ left first now, (left = 0 ∨ ¬MayRepeat (ending limit operation first)) →
      motive left first now ⟨ending limit operation first, [now],
        now + (bounded limit first (operation first)).durationMs⟩)
    (again : ∀ left first now r, MayRepeat (ending limit operation first) →
      motive left (first + 1)
        (now + (bounded limit first (operation first)).durationMs + pause first) r →
      motive (left + 1) first now { r with starts := now :: r.starts })
    (left first now : Nat) :
    motive left first now (runFrom limit pause operation left first now) := by
  -- by the attempts that are left; the number and the start of the next one change on the way
  induction left generalizing first now with
  | zero =>
    rw [runFrom_zero]
    exact last 0 first now (.inl rfl)
  | succ left ih =>
    by_cases h : MayRepeat (ending limit operation first)
    · rw [runFrom_repeat limit operation pause left first now h]
      exact again left first now _ h (ih (first + 1) _)
    · rw [runFrom_stop limit operation pause left first now h]
      exact last (left + 1) first now (.inr h)

/-! ## a run -/

/-- a run that ends with its first attempt -/
theorem repeats_once (first left elapsed now : Nat)
    (h : left = 0 ∨ ¬MayRepeat (ending limit operation first)) :
    Repeats limit operation first left 0 ⟨ending limit operation first, [now], elapsed⟩ := by
  constructor
  case le => exact Nat.zero_le left
  case attempts => rfl
  case again => exact fun i hi => absurd hi (Nat.not_lt_zero i)
  case outcome => rfl
  case enough => exact h.imp_left Eq.symm

/-- one more attempt before a run -/
theorem Repeats.prepend {limit : Option UInt64} {operation : Nat → Attempt α} {first left k now : Nat}
    {r : Run α} (h : Repeats limit operation (first + 1) left k r)
    (hfirst : MayRepeat (ending limit operation first)) :
    Repeats limit operation first (left + 1) (k + 1) { r with starts := now :: r.starts } := by
  constructor
  case le => exact Nat.succ_le_succ h.le
  case attempts => exact congrArg (· + 1) h.attempts
  case again =>
    intro i hi
    cases i with
    | zero => exact hfirst
    | succ i =>
      have hi := h.again i (Nat.lt_of_succ_lt_succ hi)
      rwa [Nat.add_right_comm] at hi
  case outcome =>
    have ho := h.outcome
    rwa [Nat.add_right_comm] at ho
  case enough => exact h.enough.imp_left (congrArg (· + 1))

/-- **a run stops at the first attempt that it may not repeat** -/
theorem exists_repeats (pause : Nat → Nat) (left first now : Nat) :
    ∃ k, Repeats limit operation first left k (runFrom limit pause operation left first now) := by
  refine runFrom_rec limit operation (motive := fun left first _ r =>
    ∃ k, Repeats limit operation first left k r) ?last ?again left first now
  case last => exact fun left first now h => ⟨0, repeats_once limit operation first left _ now h⟩
  case again =>
    intro left first now r hfirst ⟨k, hk⟩
    exact ⟨k + 1, hk.prepend hfirst⟩

/-! ## under a policy -/

theorem toNat_saturatingSucc (n : UInt32) :
    (Budget.saturatingSucc n).toNat = min (n.toNat + 1) 0xFFFFFFFF := by
  have hlt := n.toNat_lt
  unfold Budget.saturatingSucc
  by_cases h : n = 0xFFFFFFFF
  · subst h
    rfl
  · have hne : n.toNat ≠ 0xFFFFFFFF := fun e => h (UInt32.toNat_inj.mp e)
    rw [if_neg h, UInt32.toNat_add]
    show (n.toNat + 1) % 2 ^ 32 = _
    omega

/-- the bound that a policy sets to each attempt -/
def limitOf (policy : Policy) : Option UInt64 :=
  if 0 < policy.timeoutMs then some policy.timeoutMs else none

theorem run_repeats (settings : RetrySettings) (policy : Policy) (fractions : Nat → Float) :
    ∃ k ≤ policy.retryCount.toNat, Repeats (limitOf policy) operation 0
      (min policy.retryCount.toNat 0xFFFFFFFE) k
      (run (Budget.ofPolicy settings policy) fractions operation) := by
  have hleft : (Budget.ofPolicy settings policy).maxAttempts.toNat - 1 =
      min policy.retryCount.toNat 0xFFFFFFFE := by
    show (Budget.saturatingSucc policy.retryCount).toNat - 1 = _
    rw [toNat_saturatingSucc]
    omega
  obtain ⟨k, hk⟩ := exists_repeats (limitOf policy) operation
    (pauses (Budget.ofPolicy settings policy).settings fractions)
    ((Budget.ofPolicy settings policy).maxAttempts.toNat - 1) 0 0
  rw [hleft] at hk
  refine ⟨k, Nat.le_trans hk.le (Nat.min_le_left _ _), ?_⟩
  unfold run
  rw [hleft]
  exact hk

end

end Relay.Retry
