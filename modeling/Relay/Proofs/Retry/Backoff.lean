import Mathlib.Algebra.Order.Ring.Nat
import Relay.Backoff

/-!
# The delays of a backoff

The delay is computed on 64 bits, by a shift and a product that saturate and then a cap. Each of the two
saturating operations is the one on unbounded numbers, cut at the greatest word (`toNat_saturatingPow`,
`toNat_saturatingMul`). The cap is at most the greatest word, so that both cuts are lost in it: the delay is
`min (least * 2 ^ attempt) cap` as if nothing had been cut (`toNat_plain`).

`delay_exact` says this of the delay without jitter, and of any other that it stays below the cap.
-/

namespace Relay

namespace Binary64

/-- a number that is zero, of either sign, or negative -/
def AtMostZero (x : Binary64) : Prop :=
  x.isNaN = false ∧ (x.isZero = true ∨ x.negative = true)

theorem exceedsZero_of_atMostZero {x : Binary64} (h : x.AtMostZero) : x.exceedsZero = false := by
  obtain ⟨hnumber, hzero | hnegative⟩ := h
  · rw [exceedsZero, hnumber, hzero, Bool.not_true, Bool.and_false, Bool.or_false]
  · rw [exceedsZero, hnumber, hnegative, Bool.not_true, Bool.false_and, Bool.or_false]

end Binary64

namespace Backoff

/-! ## words and numbers -/

theorem toNat_greatest : greatest.toNat = 2 ^ 64 - 1 := rfl

theorem toNat_le_greatest (a : UInt64) : a.toNat ≤ greatest.toNat := by
  have hlt : a.toNat < 2 ^ 64 := a.toNat_lt
  rw [toNat_greatest]
  omega

theorem toNat_min (a b : UInt64) : (min a b).toNat = min a.toNat b.toNat := by
  show (if a ≤ b then a else b).toNat = _
  by_cases h : a ≤ b
  · rw [if_pos h, Nat.min_eq_left (UInt64.le_iff_toNat_le.mp h)]
  · have hle : ¬a.toNat ≤ b.toNat := fun hn => h (UInt64.le_iff_toNat_le.mpr hn)
    rw [if_neg h, Nat.min_eq_right (by omega)]

/-- the shift of the branch that is taken does not wrap -/
theorem toNat_saturatingPow (n : UInt32) :
    (saturatingPow n).toNat = min (2 ^ n.toNat) greatest.toNat := by
  unfold saturatingPow
  rw [toNat_greatest]
  by_cases h : n.toNat < 64
  · have hpow : 2 ^ n.toNat < 2 ^ 64 := Nat.pow_lt_pow_right (by decide) h
    have hshift : ((1 : UInt64) <<< n.toUInt64).toNat = 2 ^ n.toNat := by
      rw [UInt64.toNat_shiftLeft, UInt32.toNat_toUInt64, Nat.mod_eq_of_lt h]
      show (1 <<< n.toNat) % 2 ^ 64 = _
      rw [Nat.one_shiftLeft, Nat.mod_eq_of_lt hpow]
    rw [if_pos h, hshift]
    omega
  · have hpow : 2 ^ 64 ≤ 2 ^ n.toNat := Nat.pow_le_pow_right (by decide) (Nat.le_of_not_lt h)
    rw [if_neg h, toNat_greatest]
    omega

/-- the product of the branch that is taken does not wrap -/
theorem toNat_saturatingMul (a b : UInt64) :
    (saturatingMul a b).toNat = min (a.toNat * b.toNat) greatest.toNat := by
  unfold saturatingMul
  by_cases h : a.toNat * b.toNat ≤ greatest.toNat
  · have hlt : a.toNat * b.toNat < 2 ^ 64 := by
      rw [toNat_greatest] at h
      omega
    rw [if_pos h, UInt64.toNat_mul, Nat.mod_eq_of_lt hlt, Nat.min_eq_left h]
  · rw [if_neg h, Nat.min_eq_right (Nat.le_of_not_le h)]

/-! ## the delay in unbounded numbers -/

/-- a cap makes up for what is cut above it, before a product and after it -/
theorem min_mul_cut {cap most : Nat} (h : cap ≤ most) (least power : Nat) :
    min (min (least * min power most) most) cap = min (least * power) cap := by
  by_cases hpower : power ≤ most
  · rw [Nat.min_eq_left hpower, Nat.min_assoc, Nat.min_eq_right h]
  · have hmost : most ≤ power := Nat.le_of_not_le hpower
    rw [Nat.min_eq_right hmost, Nat.min_assoc, Nat.min_eq_right h]
    cases least with
    | zero => rw [Nat.zero_mul, Nat.zero_mul]
    | succ least =>
      have hcut : most ≤ (least + 1) * most := Nat.le_mul_of_pos_left most (Nat.succ_pos least)
      have hpow : power ≤ (least + 1) * power := Nat.le_mul_of_pos_left power (Nat.succ_pos least)
      rw [Nat.min_eq_right (h.trans hcut), Nat.min_eq_right (h.trans (hmost.trans hpow))]

/-- **the delay is the one that unbounded arithmetic gives** -/
theorem toNat_plain (s : RetrySettings) (attempt : UInt32) :
    (plain s attempt).toNat = min (s.minDelayMs.toNat * 2 ^ attempt.toNat) s.maxDelayMs.toNat := by
  unfold plain
  rw [toNat_min, toNat_saturatingMul, toNat_saturatingPow]
  exact min_mul_cut (toNat_le_greatest s.maxDelayMs) _ _

theorem plain_mono (s : RetrySettings) {m n : UInt32} (h : m ≤ n) : plain s m ≤ plain s n := by
  have hpow : 2 ^ m.toNat ≤ 2 ^ n.toNat :=
    Nat.pow_le_pow_right (by decide) (UInt32.le_iff_toNat_le.mp h)
  have hmul : s.minDelayMs.toNat * 2 ^ m.toNat ≤ s.minDelayMs.toNat * 2 ^ n.toNat :=
    Nat.mul_le_mul_left _ hpow
  rw [UInt64.le_iff_toNat_le, toNat_plain, toNat_plain]
  omega

theorem delay_eq_plain {s : RetrySettings} (h : s.jitter.AtMostZero) (fraction : Float)
    (attempt : UInt32) : delay s fraction attempt = plain s attempt := by
  have hjitter := Binary64.exceedsZero_of_atMostZero h
  rw [delay, hjitter, if_neg Bool.false_ne_true]

/-- whatever jitter makes of a delay, the cap comes last -/
theorem delay_le_max (s : RetrySettings) (fraction : Float) (attempt : UInt32) :
    delay s fraction attempt ≤ s.maxDelayMs := by
  have hmin : ∀ d, min d s.maxDelayMs ≤ s.maxDelayMs := by
    intro d
    rw [UInt64.le_iff_toNat_le, toNat_min]
    exact Nat.min_le_right _ _
  unfold delay
  by_cases hjitter : s.jitter.exceedsZero = true
  · rw [if_pos hjitter]
    exact hmin _
  · rw [if_neg hjitter]
    exact hmin _

/-- **what the delays of a backoff are** -/
structure Exact (s : RetrySettings) : Prop where
  unjittered : s.jitter.AtMostZero → ∀ fraction attempt,
    (delay s fraction attempt).toNat =
      min (s.minDelayMs.toNat * 2 ^ attempt.toNat) s.maxDelayMs.toNat
  grows : s.jitter.AtMostZero → ∀ first second m n, m ≤ n → delay s first m ≤ delay s second n
  /-- no shift wraps -/
  power : ∀ n, (saturatingPow n).toNat = min (2 ^ n.toNat) (2 ^ 64 - 1)
  /-- no product wraps -/
  product : ∀ a b, (saturatingMul a b).toNat = min (a.toNat * b.toNat) (2 ^ 64 - 1)
  capped : ∀ fraction attempt, delay s fraction attempt ≤ s.maxDelayMs

/-- **a delay is exact at all bounds and for all attempts, and jitter never takes it over the cap** -/
theorem delay_exact (s : RetrySettings) : Exact s := by
  constructor
  case unjittered =>
    intro h fraction attempt
    rw [delay_eq_plain h, toNat_plain]
  case grows =>
    intro h first second m n hle
    rw [delay_eq_plain h, delay_eq_plain h]
    exact plain_mono s hle
  case power => exact toNat_saturatingPow
  case product => exact toNat_saturatingMul
  case capped => exact delay_le_max s

/-- one millisecond, doubled 64 times, under the greatest cap -/
example : plain { minDelayMs := 1, maxDelayMs := greatest } 64 = greatest := by decide

end Backoff

end Relay
