import Relay.Backoff
import Relay.Fault
import Relay.Pause
import Relay.Policy

/-!
# Retrying

An operation is tried until it succeeds, fails with a fault that may not be tried again, or has used
up its attempts. Time is virtual, in milliseconds: an `Attempt` says how long it takes and how it
ends, and only attempts and the pauses between them take time. An attempt that would take longer than
the bound ends at the bound with a timeout. A pause takes as long as `Backoff.delay` says, if a pause may
take that long.

`Retry.run` keeps when each attempt started, so that a run can be read back as a whole.
-/

namespace Relay

namespace Retry

/-- how long one attempt takes and how it ends -/
structure Attempt (α : Type) where
  durationMs : Nat
  outcome : Except Fault α

/-- an attempt that does nothing but pause before it ends -/
def Attempt.after {α : Type} (delayMs : Nat) (outcome : Except Fault α) : Attempt α :=
  ⟨Pause.lengthMs delayMs, outcome⟩

/-- what bounds a run -/
structure Budget where
  /-- with the first one; at least one is made -/
  maxAttempts : UInt32
  settings : RetrySettings
  /-- the bound on one attempt -/
  attemptTimeoutMs : Option UInt64 := none
deriving DecidableEq

namespace Budget

/-- the number after `n`, or `n` if it is the greatest -/
def saturatingSucc (n : UInt32) : UInt32 := if n = 0xFFFFFFFF then n else n + 1

/-- the given number of attempts after the first, without bound on time -/
def ofSettings (settings : RetrySettings) (retries : UInt32) : Budget :=
  { maxAttempts := saturatingSucc retries, settings }

/-- the budget of a policy; a timeout of zero is no bound -/
def ofPolicy (settings : RetrySettings) (policy : Policy) : Budget :=
  { ofSettings settings policy.retryCount with
    attemptTimeoutMs := if 0 < policy.timeoutMs then some policy.timeoutMs else none }

end Budget

/-- how a run ended and when its attempts started -/
structure Run (α : Type) where
  outcome : Except Fault α
  /-- the start of each attempt -/
  starts : List Nat
  /-- the time at the end of the last attempt -/
  elapsedMs : Nat

def Run.attempts {α : Type} (r : Run α) : Nat := r.starts.length

/-- the fault of an attempt, counted from 0, that took too long -/
def timeoutFault (attempt : Nat) (limit : UInt64) : Fault :=
  .timeout ("attempt " ++ toString (attempt + 1) ++ " exceeded " ++ toString limit.toNat ++ "ms")

/-- an attempt under a bound on its time -/
def bounded {α : Type} (limit : Option UInt64) (attempt : Nat) (a : Attempt α) : Attempt α :=
  match limit with
  | some limit =>
    if limit.toNat < a.durationMs then ⟨limit.toNat, .error (timeoutFault attempt limit)⟩ else a
  | none => a

/-- goes on with the given attempt at the given time, and at most `left` more -/
def runFrom {α : Type} (limit : Option UInt64) (pause : Nat → Nat) (operation : Nat → Attempt α) :
    (left attempt now : Nat) → Run α
  | left, attempt, now =>
    let a := bounded limit attempt (operation attempt)
    let finish := now + a.durationMs
    match a.outcome, left with
    | .error fault, left + 1 =>
      if fault.isRetryable then
        let rest := runFrom limit pause operation left (attempt + 1) (finish + pause attempt)
        { rest with starts := now :: rest.starts }
      else ⟨.error fault, [now], finish⟩
    | outcome, _ => ⟨outcome, [now], finish⟩

/-- the pause after each attempt, with the fractions that jitter draws -/
def pauses (settings : RetrySettings) (fractions : Nat → Float) (attempt : Nat) : Nat :=
  Pause.lengthMs (Backoff.delay settings (fractions attempt) (UInt32.ofNat attempt)).toNat

def run {α : Type} (budget : Budget) (fractions : Nat → Float) (operation : Nat → Attempt α) : Run α :=
  runFrom budget.attemptTimeoutMs (pauses budget.settings fractions) operation
    (budget.maxAttempts.toNat - 1) 0 0

end Retry

end Relay
