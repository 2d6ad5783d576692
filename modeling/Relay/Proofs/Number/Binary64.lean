import Relay.Number.Binary64

/-!
# Integers are finite as doubles

`isFinite_ofInt` says that an integer of at most 64 bits is rounded to a finite double: the unit in which
it is rounded is far below the greatest one (`exists_unit`), and there are few units in it
(`nearest_le`).
-/

namespace Relay.Binary64

/-- a ratio below a bound is rounded to the bound at most -/
theorem nearest_le {num den bound : Nat} (h : num < bound * den) : nearest num den ≤ bound := by
  have hquotient : num / den < bound := Nat.div_lt_of_lt_mul (Nat.mul_comm bound den ▸ h)
  have hstep : nearest num den ≤ num / den + 1 := by
    unfold nearest
    dsimp only
    split
    · omega
    · split <;> omega
  omega

theorem isFinite_ofUnsigned (negative : Bool) {n : Nat} (h : n < infinityBits) :
    (ofUnsigned negative n).isFinite = true := by
  have htwo : twoTo 63 = 9223372036854775808 := by decide
  have hinfinity : infinityBits = 9218868437227405312 := by decide
  have hunsigned : (ofUnsigned negative n).unsigned = n := by
    unfold unsigned ofUnsigned
    rw [UInt64.toNat_ofNat', htwo]
    cases negative with
    | false =>
      show n % 2 ^ 64 % _ = n
      omega
    | true =>
      show (n + 9223372036854775808) % 2 ^ 64 % _ = n
      omega
  unfold isFinite
  rw [hunsigned]
  exact decide_eq_true h

/-- an integer is a number of units of about 53 bits less -/
theorem exists_unit (negative : Bool) {num : Nat} (h : num ≠ 0) :
    ∃ q : Int, (num.log2 : Int) - 53 ≤ q ∧ q ≤ num.log2 ∧ ofRatio negative num 1 =
      ofUnsigned negative (min ((q + 1074).toNat * twoTo 52 +
        nearest (num * twoTo (-q).toNat) (1 * twoTo q.toNat)) infinityBits) := by
  have hone : Nat.log2 1 = 0 := rfl
  unfold ofRatio
  rw [if_neg h]
  refine ⟨_, ?_, ?_, rfl⟩
  · rw [hone]
    split <;> omega
  · rw [hone]
    split <;> omega

theorem isFinite_ofInt {i : Int} (h : i.natAbs ≤ 0xFFFFFFFFFFFFFFFF) : (ofInt i).isFinite = true := by
  unfold ofInt
  by_cases hzero : i.natAbs = 0
  · rw [hzero]
    exact isFinite_ofUnsigned _ (by decide)
  obtain ⟨q, hlow, hhigh, hratio⟩ := exists_unit (i < 0) hzero
  have hlog : i.natAbs.log2 < 64 := (Nat.log2_lt hzero).mpr (Nat.lt_succ_of_le h)
  have hunits : nearest (i.natAbs * twoTo (-q).toNat) (1 * twoTo q.toNat) ≤ 2 ^ 54 := by
    refine nearest_le ?_
    calc i.natAbs * 2 ^ (-q).toNat
      _ < 2 ^ (i.natAbs.log2 + 1) * 2 ^ (-q).toNat :=
        Nat.mul_lt_mul_of_pos_right Nat.lt_log2_self (Nat.two_pow_pos _)
      _ = 2 ^ (i.natAbs.log2 + 1 + (-q).toNat) := (Nat.pow_add ..).symm
      _ ≤ 2 ^ (54 + q.toNat) := Nat.pow_le_pow_right (by decide) (by omega)
      _ = 2 ^ 54 * (1 * 2 ^ q.toNat) := by rw [Nat.one_mul, Nat.pow_add]
  have htwo : twoTo 52 = 4503599627370496 := by decide
  have hinfinity : infinityBits = 9218868437227405312 := by decide
  rw [hratio]
  refine isFinite_ofUnsigned _ ?_
  have hexponent : (q + 1074).toNat ≤ 1138 := by omega
  rw [htwo, hinfinity]
  omega

end Relay.Binary64
