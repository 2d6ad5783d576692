/-!
# Padded numbers

`padded width n` is the decimal text of `n` with zeros in front up to `width` characters. A longer
number is written in full. It consists of digits (`isDigit_of_mem_padded`), whose value is the number
(`ofDigitChars_padded`), so that different numbers have different texts.
-/

namespace Relay.Text

/-- decimal digits with zeros in front up to a width -/
def padded (width n : Nat) : String :=
  let ds := Nat.toDigits 10 n
  String.ofList (List.replicate (width - ds.length) '0' ++ ds)

variable (width n : Nat)

theorem toList_padded : (padded width n).toList =
    List.replicate (width - (Nat.toDigits 10 n).length) '0' ++ Nat.toDigits 10 n :=
  String.toList_ofList

theorem isDigit_of_mem_padded : ∀ c ∈ (padded width n).toList, c.isDigit = true := by
  intro c hc
  rw [toList_padded, List.mem_append, List.mem_replicate] at hc
  rcases hc with ⟨_, rfl⟩ | hc
  · rfl
  · exact Nat.isDigit_of_mem_toDigits (by decide) (by decide) hc

theorem padded_ne_nil : (padded width n).toList ≠ [] := by
  rw [toList_padded]
  exact List.append_ne_nil_of_right_ne_nil _ Nat.toDigits_ne_nil

theorem ofDigitChars_padded : Nat.ofDigitChars 10 (padded width n).toList 0 = n := by
  rw [toList_padded, Nat.ofDigitChars_append, Nat.ofDigitChars_replicate_zero, Nat.mul_zero,
    Nat.ofDigitChars_ten_toDigits]

theorem eq_of_padded_eq {width i j : Nat} (h : padded width i = padded width j) : i = j := by
  have hi := ofDigitChars_padded width i
  rw [h, ofDigitChars_padded] at hi
  exact hi.symm

end Relay.Text
