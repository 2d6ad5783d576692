import Relay.Wire

/-!
# Backoff

The delay before an attempt doubles from attempt to attempt up to a greatest delay. All arithmetic is
on 64 bits and saturates, so that the delay is the one that unbounded arithmetic gives. Jitter
stretches a delay by a random fraction, and never beyond the greatest delay.
-/

namespace Relay

/-- the delays between attempts -/
structure RetrySettings where
  /-- before the first repetition -/
  minDelayMs : UInt64 := 200
  /-- the bound on any delay -/
  maxDelayMs : UInt64 := 10000
  /-- the greatest stretch, as a part of the delay -/
  jitter : Binary64 := Binary64.zero
deriving DecidableEq, Repr

namespace RetrySettings

def form (s : RetrySettings) : Form := .record <|
  Wire.field "min_delay_ms" s.minDelayMs ++ Wire.field "max_delay_ms" s.maxDelayMs ++
    Wire.field "jitter" s.jitter

def read {σ : Type} [Readable σ] (s : σ) : Option RetrySettings := do
  let r ← Row.read? ["min_delay_ms", "max_delay_ms", "jitter"] s
  let default : RetrySettings := {}
  return {
    minDelayMs := ← r.defaulted "min_delay_ms" Wire.read default.minDelayMs
    maxDelayMs := ← r.defaulted "max_delay_ms" Wire.read default.maxDelayMs
    jitter := ← r.defaulted "jitter" Wire.read default.jitter }

instance : Wire RetrySettings := ⟨form, read⟩

/-- equal numbers -/
def agrees (s t : RetrySettings) : Bool :=
  s.minDelayMs == t.minDelayMs && s.maxDelayMs == t.maxDelayMs && s.jitter.agrees t.jitter

end RetrySettings

namespace Backoff

/-- the greatest 64-bit number -/
def greatest : UInt64 := 0xFFFFFFFFFFFFFFFF

/-- the product, or the greatest number if it does not fit -/
def saturatingMul (a b : UInt64) : UInt64 :=
  if a.toNat * b.toNat ≤ greatest.toNat then a * b else greatest

/-- a power of two, or the greatest number if it does not fit -/
def saturatingPow (n : UInt32) : UInt64 :=
  if n.toNat < 64 then 1 <<< n.toUInt64 else greatest

/-- the delay after an attempt, counted from 0, without jitter -/
def plain (s : RetrySettings) (attempt : UInt32) : UInt64 :=
  min (saturatingMul s.minDelayMs (saturatingPow attempt)) s.maxDelayMs

def stretched (delay : UInt64) (fraction jitter : Float) : UInt64 :=
  (delay.toFloat * (1.0 + fraction * jitter)).toUInt64

/-- the delay after an attempt, counted from 0; `fraction` is drawn from 0 to 1 -/
def delay (s : RetrySettings) (fraction : Float) (attempt : UInt32) : UInt64 :=
  if s.jitter.exceedsZero then
    min (stretched (plain s attempt) fraction s.jitter.toFloat) s.maxDelayMs
  else plain s attempt

end Backoff

end Relay
