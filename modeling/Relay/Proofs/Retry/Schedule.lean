import Mathlib.Algebra.BigOperators.Group.Finset.Basic
import Mathlib.Order.Bounds.Defs
import Relay.Proofs.Retry.Attempts

/-!
# The schedule of a run

What a policy asks of a run, said without the run, and the loop that makes the attempts.

* `permitted`   an attempt as a policy lets it happen;
* `Stops`       a number of attempts after which there is a reason to stop;
* `startOf`     when an attempt starts: after those before it and the pause after each of them;
* `Schedule`    a run of `n` attempts, where `n` is the least number with a reason to stop;
* `Loop`        the loop with its counter of 32 bits, which notes every call of the operation.

`run_followsSchedule` says that a run keeps to the schedule of its policy, and that the loop makes the
calls of this schedule and no others. A pause takes thirty years at most, so that a run with a longer
delay is early (`not_schedule_delays`).
-/

namespace Relay.Retry

/-! ## what a policy asks for -/

section
variable {α : Type} (policy : Policy) (pause : Nat → Nat) (operation : Nat → Attempt α)

/-- an attempt as a policy lets it happen: one that lasts longer than the bound ends at the bound with
a timeout, and a bound of zero is none -/
def permitted (i : Nat) : Attempt α :=
  if policy.timeoutMs = 0 ∨ (operation i).durationMs ≤ policy.timeoutMs.toNat then operation i
  else ⟨policy.timeoutMs.toNat, .error (timeoutFault i policy.timeoutMs)⟩

/-- how many attempts there may be -/
def mostAttempts : Nat := min (policy.retryCount.toNat + 1) 0xFFFFFFFF

/-- after `k` attempts there is a reason to stop -/
def Stops (k : Nat) : Prop :=
  (∃ value, (permitted policy operation (k - 1)).outcome = .ok value) ∨
  (∃ fault, (permitted policy operation (k - 1)).outcome = .error fault ∧
    fault.isRetryable = false) ∨
  k = mostAttempts policy

def startOf (i : Nat) : Nat :=
  ∑ j ∈ Finset.range i, ((permitted policy operation j).durationMs + pause j)

/-- a run of `n` attempts that keeps to a policy, with the given pauses -/
structure Schedule (n : Nat) (r : Run α) : Prop where
  least : IsLeast {k | 1 ≤ k ∧ Stops policy operation k} n
  attempts : r.attempts = n
  outcome : r.outcome = (permitted policy operation (n - 1)).outcome
  starts : r.starts = (List.range n).map (startOf policy pause operation)
  /-- no pause after the last attempt -/
  elapsed : r.elapsedMs = startOf policy pause operation (n - 1) +
    (permitted policy operation (n - 1)).durationMs

theorem bounded_limitOf (i : Nat) :
    bounded (limitOf policy) i (operation i) = permitted policy operation i := by
  unfold limitOf permitted
  by_cases hzero : policy.timeoutMs = 0
  · rw [hzero]
    simp [bounded]
  · have hpos : 0 < policy.timeoutMs := UInt64.pos_iff_ne_zero.mpr hzero
    rw [if_pos hpos]
    by_cases hlate : policy.timeoutMs.toNat < (operation i).durationMs
    · simp [bounded, hlate, hzero]
    · simp [bounded, hlate, Nat.not_lt.mp hlate]

theorem ending_limitOf (i : Nat) :
    ending (limitOf policy) operation i = (permitted policy operation i).outcome := by
  unfold ending
  rw [bounded_limitOf]

theorem stops_iff (k : Nat) : Stops policy operation k ↔
    ¬MayRepeat (ending (limitOf policy) operation (k - 1)) ∨ k = mostAttempts policy := by
  unfold Stops
  rw [ending_limitOf]
  cases ho : (permitted policy operation (k - 1)).outcome with
  | ok value => simp [MayRepeat]
  | error fault => simp [mayRepeat_error_iff]

theorem startOf_zero : startOf policy pause operation 0 = 0 := rfl

theorem startOf_succ (i : Nat) : startOf policy pause operation (i + 1) =
    startOf policy pause operation i + (permitted policy operation i).durationMs + pause i := by
  unfold startOf
  rw [Finset.sum_range_succ, Nat.add_assoc]

/-! ## the clock -/

/-- a run from the attempt `first` on, with its attempts when they are due -/
structure KeepsTime (first : Nat) (r : Run α) : Prop where
  starts : r.starts = (List.range' first r.attempts).map (startOf policy pause operation)
  elapsed : r.elapsedMs = startOf policy pause operation (first + r.attempts - 1) +
    (permitted policy operation (first + r.attempts - 1)).durationMs

theorem keepsTime_once (outcome : Except Fault α) (first : Nat) :
    KeepsTime policy pause operation first
      ⟨outcome, [startOf policy pause operation first], startOf policy pause operation first +
        (permitted policy operation first).durationMs⟩ := by
  constructor
  case starts => rfl
  case elapsed => rfl

theorem KeepsTime.prepend {policy : Policy} {pause : Nat → Nat} {operation : Nat → Attempt α}
    {first : Nat} {r : Run α} (h : KeepsTime policy pause operation (first + 1) r) :
    KeepsTime policy pause operation first
      { r with starts := startOf policy pause operation first :: r.starts } := by
  have hlast : first + (r.attempts + 1) - 1 = first + 1 + r.attempts - 1 := by omega
  constructor
  case starts =>
    show _ = (List.range' first (r.attempts + 1)).map _
    rw [List.range'_succ, List.map_cons, ← h.starts]
  case elapsed =>
    show r.elapsedMs = startOf policy pause operation (first + (r.attempts + 1) - 1) +
      (permitted policy operation (first + (r.attempts + 1) - 1)).durationMs
    rw [hlast]
    exact h.elapsed

theorem keepsTime_runFrom (left first : Nat) :
    KeepsTime policy pause operation first (runFrom (limitOf policy) pause operation left first
      (startOf policy pause operation first)) := by
  refine runFrom_rec (limitOf policy) operation (motive := fun _ first now r =>
    now = startOf policy pause operation first → KeepsTime policy pause operation first r)
    ?last ?again left first _ rfl
  case last =>
    intro left first now _ hnow
    rw [hnow, bounded_limitOf]
    exact keepsTime_once policy pause operation _ first
  case again =>
    intro left first now r _ hr hnow
    subst hnow
    refine (hr ?_).prepend
    rw [bounded_limitOf, startOf_succ]

end

/-! ## the loop -/

structure Call where
  number : UInt32
  startMs : Nat
deriving DecidableEq

section
variable {α : Type}

/-- how many attempts a budget allows; at least one is made -/
def Budget.most (budget : Budget) : UInt32 :=
  if budget.maxAttempts = 0 then 1 else budget.maxAttempts

/-- the loop goes on with the attempt of a number at a time, makes some calls and ends in a run; its
counter has 32 bits and begins again after the greatest number -/
inductive Loop (budget : Budget) (pause : Nat → Nat) (operation : Nat → Attempt α) :
    UInt32 → Nat → List Call → Run α → Prop
  | stop (number : UInt32) (now : Nat) (a : Attempt α)
      (made : bounded budget.attemptTimeoutMs number.toNat (operation number.toNat) = a)
      (enough : ¬MayRepeat a.outcome ∨ budget.most ≤ number + 1) :
      Loop budget pause operation number now [⟨number, now⟩]
        ⟨a.outcome, [now], now + a.durationMs⟩
  | again (number : UInt32) (now : Nat) (a : Attempt α) (calls : List Call) (r : Run α)
      (made : bounded budget.attemptTimeoutMs number.toNat (operation number.toNat) = a)
      (failed : MayRepeat a.outcome) (left : number + 1 < budget.most)
      (rest : Loop budget pause operation (number + 1) (now + a.durationMs + pause number.toNat)
        calls r) :
      Loop budget pause operation number now (⟨number, now⟩ :: calls)
        { r with starts := now :: r.starts }

variable {budget : Budget} {pause : Nat → Nat} {operation : Nat → Attempt α}

theorem Loop.unique {number : UInt32} {now : Nat} {calls calls' : List Call} {r r' : Run α}
    (h : Loop budget pause operation number now calls r)
    (h' : Loop budget pause operation number now calls' r') : calls' = calls ∧ r' = r := by
  induction h generalizing calls' r' with
  | stop number now a made enough =>
    subst made
    cases h' with
    | stop _ _ _ made' _ =>
      subst made'
      exact ⟨rfl, rfl⟩
    | again _ _ _ _ _ made' failed' left' _ =>
      subst made'
      rcases enough with enough | enough
      · exact absurd failed' enough
      · exact absurd left' (UInt32.not_lt.mpr enough)
  | again number now a calls r made failed left rest ih =>
    subst made
    cases h' with
    | stop _ _ _ made' enough' =>
      subst made'
      rcases enough' with enough' | enough'
      · exact absurd failed enough'
      · exact absurd left (UInt32.not_lt.mpr enough')
    | again _ _ _ _ _ made' _ _ rest' =>
      subst made'
      obtain ⟨rfl, rfl⟩ := ih rest'
      exact ⟨rfl, rfl⟩

theorem toNat_succ {number : UInt32} (h : number.toNat + 1 < UInt32.size) :
    (number + 1).toNat = number.toNat + 1 := by
  have hsize : UInt32.size = 2 ^ 32 := rfl
  rw [UInt32.toNat_add]
  show (number.toNat + 1) % 2 ^ 32 = _
  omega

variable (settings : RetrySettings) (policy : Policy)

theorem toNat_most : (Budget.ofPolicy settings policy).most.toNat = mostAttempts policy := by
  have hmost : (Budget.ofPolicy settings policy).maxAttempts.toNat = mostAttempts policy :=
    toNat_saturatingSucc policy.retryCount
  have hpos : 0 < mostAttempts policy := by
    unfold mostAttempts
    omega
  have hne : (Budget.ofPolicy settings policy).maxAttempts ≠ 0 := by
    intro hzero
    rw [hzero] at hmost
    exact absurd hmost (Nat.ne_of_lt hpos)
  rw [Budget.most, if_neg hne, hmost]

variable (pause : Nat → Nat) (operation : Nat → Attempt α)

def callAt (i : Nat) : Call := ⟨UInt32.ofNat i, startOf policy pause operation i⟩

theorem callAt_toNat (number : UInt32) : callAt policy pause operation number.toNat =
    ⟨number, startOf policy pause operation number.toNat⟩ := by
  rw [callAt, UInt32.ofNat_toNat]

theorem loop_runFrom (left : Nat) (number : UInt32)
    (hleft : number.toNat + left + 1 = mostAttempts policy) :
    let r := runFrom (limitOf policy) pause operation left number.toNat
      (startOf policy pause operation number.toNat)
    Loop (Budget.ofPolicy settings policy) pause operation number
      (startOf policy pause operation number.toNat)
      ((List.range' number.toNat r.attempts).map (callAt policy pause operation)) r := by
  have hmost := toNat_most settings policy
  have hsize : mostAttempts policy < UInt32.size := by
    rw [← hmost]
    exact UInt32.toNat_lt_size _
  -- as long as attempts are left the counter is below its greatest number, so that it may go up
  refine runFrom_rec (limitOf policy) operation (motive := fun left first now r =>
    ∀ number : UInt32, number.toNat = first → now = startOf policy pause operation first →
      first + left + 1 = mostAttempts policy →
      Loop (Budget.ofPolicy settings policy) pause operation number now
        ((List.range' first r.attempts).map (callAt policy pause operation)) r)
    ?last ?again left number.toNat _ number rfl rfl hleft
  case last =>
    intro left first now h number hnumber hnow hleft
    subst hnumber hnow
    show Loop _ _ _ number _ [callAt policy pause operation number.toNat] _
    rw [callAt_toNat]
    refine .stop number _ _ rfl (h.symm.imp_right fun hzero => ?_)
    have hsucc : (number + 1).toNat = number.toNat + 1 := toNat_succ (by omega)
    rw [UInt32.le_iff_toNat_le, hmost, hsucc]
    omega
  case again =>
    intro left first now r hfirst hr number hnumber hnow hleft
    subst hnumber hnow
    have hsucc : (number + 1).toNat = number.toNat + 1 := toNat_succ (by omega)
    have hlater : startOf policy pause operation number.toNat +
        (bounded (limitOf policy) number.toNat (operation number.toNat)).durationMs +
        pause number.toNat = startOf policy pause operation (number.toNat + 1) := by
      rw [bounded_limitOf, startOf_succ]
    have hrest := hr (number + 1) hsucc hlater (by omega)
    have hagain : number + 1 < (Budget.ofPolicy settings policy).most := by
      rw [UInt32.lt_iff_toNat_lt, hmost, hsucc]
      omega
    show Loop _ _ _ number _ ((List.range' number.toNat (r.attempts + 1)).map _) _
    rw [List.range'_succ, List.map_cons, callAt_toNat]
    exact .again number _ _ _ r rfl hfirst hagain hrest

end

/-! ## a run under a policy -/

/-- the delays that settings ask for -/
def delays (settings : RetrySettings) (fractions : Nat → Float) (i : Nat) : Nat :=
  (Backoff.delay settings (fractions i) (UInt32.ofNat i)).toNat

section
variable {α : Type} (settings : RetrySettings) (policy : Policy) (fractions : Nat → Float)
  (operation : Nat → Attempt α)

theorem exists_schedule : ∃ n ≤ mostAttempts policy,
    Schedule policy (pauses settings fractions) operation n
      (run (Budget.ofPolicy settings policy) fractions operation) := by
  obtain ⟨k, hle, hk⟩ := run_repeats operation settings policy fractions
  have hmost : mostAttempts policy = min policy.retryCount.toNat 0xFFFFFFFE + 1 := by
    unfold mostAttempts
    omega
  have htime := keepsTime_runFrom policy (pauses settings fractions) operation
    ((Budget.ofPolicy settings policy).maxAttempts.toNat - 1) 0
  have hattempts := hk.attempts
  have hkle := hk.le
  refine ⟨k + 1, by omega, ?_⟩
  constructor
  case least =>
    constructor
    · refine ⟨Nat.succ_pos k, (stops_iff policy operation (k + 1)).mpr ?_⟩
      have henough := hk.enough
      rw [hk.outcome, Nat.zero_add] at henough
      rcases henough with hleft | hfinal
      · exact .inr (by omega)
      · exact .inl hfinal
    · intro m ⟨hm, hstops⟩
      by_contra hlt
      have hagain := hk.again (m - 1) (by omega)
      rw [Nat.zero_add] at hagain
      rcases (stops_iff policy operation m).mp hstops with hfinal | hmost'
      · exact hfinal hagain
      · omega
  case attempts => exact hattempts
  case outcome =>
    rw [hk.outcome, ending_limitOf, Nat.zero_add]
    rfl
  case starts =>
    have hstarts := htime.starts
    rw [← List.range_eq_range'] at hstarts
    rw [← hattempts]
    exact hstarts
  case elapsed =>
    have helapsed := htime.elapsed
    rw [Nat.zero_add] at helapsed
    rw [← hattempts]
    exact helapsed

/-- **a run, its schedule and the loop that makes it** -/
structure Follows (n : Nat) (r : Run α) : Prop where
  schedule : Schedule policy (pauses settings fractions) operation n r
  paused : ∀ i, pauses settings fractions i = min (delays settings fractions i) Pause.longestMs
  /-- the loop makes the calls of the schedule, in order and each once, and gives the run -/
  calls : ∀ calls r', Loop (Budget.ofPolicy settings policy) (pauses settings fractions) operation
    0 0 calls r' ↔
      calls = (List.range n).map (callAt policy (pauses settings fractions) operation) ∧ r' = r
  /-- its counter shows the number of the attempt, and never begins again -/
  counted : ∀ i < n, (UInt32.ofNat i).toNat = i ∧ (UInt32.ofNat i + 1).toNat = i + 1
  /-- an attempt that lasts too long ends at the bound, with a timeout that may be tried again -/
  late : ∀ i, 0 < policy.timeoutMs → policy.timeoutMs.toNat < (operation i).durationMs →
    ∃ fault, permitted policy operation i = ⟨policy.timeoutMs.toNat, .error fault⟩ ∧
      fault.kind = .timeout ∧ fault.isRetryable = true
  /-- any other is as it is -/
  inTime : ∀ i, policy.timeoutMs = 0 ∨ (operation i).durationMs ≤ policy.timeoutMs.toNat →
    permitted policy operation i = operation i

theorem loop_iff {n : Nat} (h : Schedule policy (pauses settings fractions) operation n
    (run (Budget.ofPolicy settings policy) fractions operation)) (calls : List Call) (r : Run α) :
    Loop (Budget.ofPolicy settings policy) (pauses settings fractions) operation 0 0 calls r ↔
      calls = (List.range n).map (callAt policy (pauses settings fractions) operation) ∧
        r = run (Budget.ofPolicy settings policy) fractions operation := by
  have hleft : 0 + ((Budget.ofPolicy settings policy).maxAttempts.toNat - 1) + 1 =
      mostAttempts policy := by
    show 0 + ((Budget.saturatingSucc policy.retryCount).toNat - 1) + 1 = min _ _
    rw [toNat_saturatingSucc]
    omega
  have hloop := loop_runFrom settings policy (pauses settings fractions) operation _ 0 hleft
  have hrange : List.range' 0 (run (Budget.ofPolicy settings policy) fractions operation).attempts =
      List.range n := by
    rw [h.attempts, List.range_eq_range']
  constructor
  · intro h'
    obtain ⟨hcalls, hr⟩ := hloop.unique h'
    exact ⟨hcalls.trans (congrArg _ hrange), hr⟩
  · rintro ⟨rfl, rfl⟩
    rw [← hrange]
    exact hloop

/-- **a run follows the schedule of its policy** -/
theorem run_followsSchedule : ∃ n, Follows settings policy fractions operation n
    (run (Budget.ofPolicy settings policy) fractions operation) := by
  obtain ⟨n, hn, hschedule⟩ := exists_schedule settings policy fractions operation
  refine ⟨n, ?_⟩
  constructor
  case schedule => exact hschedule
  case paused => exact fun _ => rfl
  case calls => exact loop_iff settings policy fractions operation hschedule
  case counted =>
    intro i hi
    have hmost : mostAttempts policy ≤ 0xFFFFFFFF := Nat.min_le_right _ _
    have hsize : UInt32.size = 0xFFFFFFFF + 1 := rfl
    have htoNat : (UInt32.ofNat i).toNat = i := UInt32.toNat_ofNat_of_lt (by omega)
    refine ⟨htoNat, ?_⟩
    rw [toNat_succ (by omega), htoNat]
  case late =>
    intro i hpos hlate
    refine ⟨timeoutFault i policy.timeoutMs, if_neg ?_, rfl, rfl⟩
    rintro (hzero | hle)
    · rw [hzero] at hpos
      exact absurd hpos (by decide)
    · exact absurd hlate (Nat.not_lt.mpr hle)
  case inTime => exact fun i h => if_pos h

end

/-! ## long delays -/

namespace LongDelay

/-- a delay of a millisecond more than thirty years -/
def settings : RetrySettings := { minDelayMs := 946080000001, maxDelayMs := 946080000001 }

def policy : Policy := { retryCount := 1, timeoutMs := 0 }

def operation (i : Nat) : Attempt Unit :=
  ⟨0, if i = 0 then .error (.timeout "") else .ok ()⟩

end LongDelay

/-- a run does not wait as long as it is asked to where that is more than thirty years -/
theorem not_schedule_delays : ¬∃ n, Schedule LongDelay.policy
    (delays LongDelay.settings fun _ => 0.5) LongDelay.operation n
    (run (Budget.ofPolicy LongDelay.settings LongDelay.policy) (fun _ => 0.5)
      LongDelay.operation) := by
  rintro ⟨n, h⟩
  have hrun : (run (Budget.ofPolicy LongDelay.settings LongDelay.policy) (fun _ => 0.5)
      LongDelay.operation).starts = [0, 946080000000] := by decide +kernel
  have hstarts := h.starts
  have hn : 2 = n := by
    rw [← h.attempts, Run.attempts, hrun]
    rfl
  subst hn
  rw [hrun] at hstarts
  have hsecond : 946080000000 = startOf LongDelay.policy (delays LongDelay.settings fun _ => 0.5)
      LongDelay.operation 1 := congrArg (List.getD · 1 0) hstarts
  rw [startOf_succ, startOf_zero] at hsecond
  exact absurd hsecond (by decide)

end Relay.Retry
