import Mathlib.Data.List.TakeWhile
import Mathlib.Data.Option.Basic
import Relay.Timestamp

/-!
# Timestamps are read back

`Timestamp.ofText?_text` says that a valid timestamp is read back from its text, and `isValid_of_ofText?`
that whatever is read is valid. Each part of the text is read in turn: a number that is padded to its
width (`number?_padded`), a year with a sign or of four digits (`year?_yearText`), and as many decimals
as are written (`decimals?_decimalsText`).
-/

namespace Relay.Timestamp

open Text (padded trimStart toList_padded isDigit_of_mem_padded padded_ne_nil ofDigitChars_padded)

/-! ## digits -/

section
variable (width n : Nat)

theorem valueOf_padded : valueOf (padded width n).toList = n := by
  have hvalue : ∀ ds, valueOf ds = Nat.ofDigitChars 10 ds 0 := fun ds =>
    Nat.ofDigitChars_eq_foldl.symm
  rw [hvalue, ofDigitChars_padded]

variable {width n}

theorem length_padded (hwidth : 0 < width) (h : n < tenTo width) :
    (padded width n).toList.length = width := by
  have hlength := (Nat.length_toDigits_le_iff (b := 10) (by decide) hwidth).mpr h
  rw [toList_padded, List.length_append, List.length_replicate]
  omega

end

/-- where no digit follows, digits are taken up to their end -/
theorem takeWhile_padded (width n : Nat) {c : Char} (hc : c.isDigit = false) (rest : List Char) :
    ((padded width n).toList ++ c :: rest).takeWhile Char.isDigit = (padded width n).toList := by
  rw [List.takeWhile_append_of_pos (isDigit_of_mem_padded width n), List.takeWhile_cons, hc]
  simp

/-- a number starts with a digit, which is neither blank nor a sign -/
theorem exists_digit_padded (width n : Nat) :
    ∃ d ds, (padded width n).toList = d :: ds ∧ Text.isBlank d = false ∧ d ≠ '-' ∧ d ≠ '+' := by
  cases hdigits : (padded width n).toList with
  | nil => exact absurd hdigits (padded_ne_nil width n)
  | cons d ds =>
    have hdigit : d.isDigit = true := isDigit_of_mem_padded width n d (hdigits ▸ List.mem_cons_self)
    have hrange : 48 ≤ d.toNat ∧ d.toNat ≤ 57 := by
      simp only [Char.isDigit, Bool.and_eq_true, decide_eq_true_eq] at hdigit
      exact hdigit
    refine ⟨d, ds, rfl, ?_, ?_, ?_⟩
    · simp [Text.isBlank]
      omega
    · rintro rfl
      cases hdigit
    · rintro rfl
      cases hdigit

theorem trimStart_padded (width n : Nat) (rest : List Char) :
    trimStart ((padded width n).toList ++ rest) = (padded width n).toList ++ rest := by
  obtain ⟨d, ds, hdigits, hblank, -⟩ := exists_digit_padded width n
  rw [hdigits]
  simp [trimStart, hblank]

/-! ## parts -/

section
variable {width n : Nat} (rest : List Char)

theorem number?_padded (hwidth : 0 < width) (h : n < tenTo width) :
    number? width ((padded width n).toList ++ rest) = some (n, rest) := by
  have hlength := length_padded hwidth h
  have htake : ((padded width n).toList ++ rest).take width = (padded width n).toList :=
    List.take_left' hlength
  have hdigits : ((padded width n).toList).takeWhile Char.isDigit = (padded width n).toList :=
    List.takeWhile_eq_self_iff.mpr (isDigit_of_mem_padded width n)
  unfold number?
  simp only [trimStart_padded, htake, hdigits, List.isEmpty_eq_false_iff.mpr (padded_ne_nil width n),
    valueOf_padded, List.drop_left]
  rfl

theorem unspaced_padded (width n : Nat) (sign : Int) {c : Char} (hc : c.isDigit = false) :
    year?.unspaced ((padded width n).toList ++ c :: rest) sign = some (sign * n, c :: rest) := by
  unfold year?.unspaced
  simp only [takeWhile_padded width n hc, List.isEmpty_eq_false_iff.mpr (padded_ne_nil width n),
    valueOf_padded, List.drop_left]
  rfl

theorem year?_yearText (year : Int) :
    year? ((yearText year).toList ++ '-' :: rest) = some (year, '-' :: rest) := by
  unfold yearText
  by_cases h : (0 ≤ year && year ≤ 9999) = true
  · -- four digits, of which the first one is no sign
    have hyear : 0 ≤ year ∧ year ≤ 9999 := by simpa using h
    obtain ⟨d, ds, hdigits, -, hminus, hplus⟩ := exists_digit_padded 4 year.toNat
    have hlt : year.toNat < 10000 := by omega
    have hfour : number? 4 ((padded 4 year.toNat).toList ++ '-' :: rest) =
        some (year.toNat, '-' :: rest) := number?_padded _ (by decide) hlt
    have hunsigned : year? ((padded 4 year.toNat).toList ++ '-' :: rest) =
        (number? 4 ((padded 4 year.toNat).toList ++ '-' :: rest)).map
          fun found => ((found.1 : Int), found.2) := by
      unfold year?
      rw [trimStart_padded, hdigits]
      split
      · rename_i heq
        exact absurd (List.cons.inj heq).1 hminus
      · rename_i heq
        exact absurd (List.cons.inj heq).1 hplus
      · rfl
    rw [if_pos h, hunsigned, hfour]
    simp only [Option.map_some, Int.toNat_of_nonneg hyear.1]
  · rw [if_neg h]
    by_cases hnegative : year < 0
    · have hminus := unspaced_padded rest 4 year.natAbs (-1) (show '-'.isDigit = false from rfl)
      rw [if_pos hnegative, String.toList_append]
      refine hminus.trans ?_
      simp only [Option.some.injEq, Prod.mk.injEq, and_true]
      omega
    · have hplus := unspaced_padded rest 4 year.natAbs 1 (show '-'.isDigit = false from rfl)
      rw [if_neg hnegative, String.toList_append]
      refine hplus.trans ?_
      simp only [Option.some.injEq, Prod.mk.injEq, and_true]
      omega

theorem decimals?_padded (h : n < tenTo width) (hwidth : 0 < width) (hnine : width ≤ 9) :
    decimals? ('.' :: ((padded width n).toList ++ 'Z' :: rest)) =
      some (n * tenTo (9 - width), 'Z' :: rest) := by
  have hlength := length_padded hwidth h
  unfold decimals?
  simp only [takeWhile_padded width n (show 'Z'.isDigit = false from rfl),
    List.take_of_length_le (hlength ▸ hnine), valueOf_padded, hlength,
    List.isEmpty_eq_false_iff.mpr (padded_ne_nil width n), List.drop_left' hlength]
  rfl

theorem decimals?_decimalsText {nanosecond : Nat} (h : nanosecond < 1000000000) :
    decimals? ((decimalsText nanosecond).toList ++ 'Z' :: rest) = some (nanosecond, 'Z' :: rest) := by
  unfold decimalsText
  split
  case isTrue hzero =>
    rw [hzero]
    rfl
  split
  case isTrue hmillis =>
    have hthree : nanosecond / 1000000 < 1000 := by omega
    rw [String.toList_append]
    refine (decimals?_padded rest hthree (by decide) (by decide)).trans ?_
    show some (nanosecond / 1000000 * 1000000, _) = _
    rw [Nat.div_mul_cancel (Nat.dvd_of_mod_eq_zero hmillis)]
  split
  case isTrue hmicros =>
    have hsix : nanosecond / 1000 < 1000000 := by omega
    rw [String.toList_append]
    refine (decimals?_padded rest hsix (by decide) (by decide)).trans ?_
    show some (nanosecond / 1000 * 1000, _) = _
    rw [Nat.div_mul_cancel (Nat.dvd_of_mod_eq_zero hmicros)]
  case isFalse =>
    rw [String.toList_append]
    refine (decimals?_padded rest h (by decide) (by decide)).trans ?_
    show some (nanosecond * 1, _) = _
    rw [Nat.mul_one]

end

/-! ## whole timestamps -/

section
variable {t : Timestamp}

theorem toList_text (t : Timestamp) : t.text.toList =
    (yearText t.date.year).toList ++ '-' :: ((padded 2 t.date.month).toList ++
      '-' :: ((padded 2 t.date.day).toList ++ 'T' :: ((padded 2 t.hour).toList ++
        ':' :: ((padded 2 t.minute).toList ++ ':' :: ((padded 2 t.second).toList ++
          ((decimalsText t.nanosecond).toList ++ 'Z' :: [])))))) := by
  have hdash : "-".toList = ['-'] := rfl
  have htime : "T".toList = ['T'] := rfl
  have hcolon : ":".toList = [':'] := rfl
  have hzone : "Z".toList = ['Z'] := rfl
  unfold text
  simp only [String.toList_append, List.append_assoc, hdash, htime, hcolon, hzone,
    List.cons_append, List.nil_append]

theorem mark?_self {c : Char} (hc : Text.isBlank c = false) (rest : List Char) :
    mark? c (c :: rest) = some rest := by
  simp [mark?, trimStart, hc]

theorem toUtc_zero (hhour : t.hour < 24) (hminute : t.minute < 60) : t.toUtc 0 = t := by
  obtain ⟨date, hour, minute, second, nanosecond⟩ := t
  change hour < 24 at hhour
  change minute < 60 at hminute
  have hminutes : ((60 * hour + minute - 0 : Int) % 1440).toNat = 60 * hour + minute := by omega
  have hearly : ¬(60 * hour + minute - 0 : Int) < 0 := by omega
  have hlate : ¬1440 ≤ (60 * hour + minute - 0 : Int) := by omega
  simp only [toUtc, if_neg hearly, if_neg hlate, hminutes, mk.injEq, true_and, and_true]
  omega

theorem daysInMonth_le (year : Int) (month : Nat) : Date.daysInMonth year month ≤ 31 := by
  unfold Date.daysInMonth
  split
  · split <;> decide
  · split <;> decide

/-- what is read behind the letter that ends the date -/
def ofTime? (date : Date) (cs : List Char) : Option Timestamp := do
  let (hour, cs) ← number? 2 cs
  let (minute, cs) ← number? 2 (← mark? ':' cs)
  let (second, cs) ← number? 2 (← mark? ':' cs)
  let (nanosecond, cs) ← decimals? cs
  let (offset, cs) ← offset? cs
  guard (trimStart cs).isEmpty
  let here : Timestamp := ⟨date, hour, minute, second, nanosecond⟩
  guard here.isValid
  guard (here.toUtc offset).date.isValid
  return here.toUtc offset

theorem ofChars?_eq (cs : List Char) : ofChars? cs = (do
    let (year, cs) ← year? cs
    let (month, cs) ← number? 2 (← mark? '-' cs)
    let (day, cs) ← number? 2 (← mark? '-' cs)
    let cs ← match cs with
      | 'T' :: rest => some rest
      | 't' :: rest => some rest
      | ' ' :: rest => some rest
      | _ => none
    ofTime? ⟨year, month, day⟩ cs) := rfl

theorem number?_two {n : Nat} (h : n < 100) (rest : List Char) :
    number? 2 ((padded 2 n).toList ++ rest) = some (n, rest) :=
  number?_padded rest (by decide) h

theorem ofTime?_text (h : t.isValid = true) : ofTime? t.date ((padded 2 t.hour).toList ++
    ':' :: ((padded 2 t.minute).toList ++ ':' :: ((padded 2 t.second).toList ++
      ((decimalsText t.nanosecond).toList ++ ['Z'])))) = some t := by
  have hvalid := h
  simp only [isValid, Bool.and_eq_true, decide_eq_true_eq] at hvalid
  obtain ⟨⟨⟨⟨hdate, hhour⟩, hminute⟩, hsecond⟩, hnanosecond⟩ := hvalid
  have hoffset : offset? ['Z'] = some (0, []) := rfl
  have hend : (trimStart []).isEmpty = true := rfl
  have hcolon : Text.isBlank ':' = false := rfl
  have hhere : (⟨t.date, t.hour, t.minute, t.second, t.nanosecond⟩ : Timestamp) = t := rfl
  unfold ofTime?
  simp only [Option.bind_eq_bind, Option.bind_some, mark?_self hcolon,
    number?_two (show t.hour < 100 by omega), number?_two (show t.minute < 100 by omega),
    number?_two (show t.second < 100 by omega), decimals?_decimalsText [] hnanosecond, hoffset, hend,
    hhere, toUtc_zero hhour hminute, h, hdate, guard, ↓reduceIte]
  rfl

/-- **a valid timestamp is read back** -/
theorem ofText?_text (h : t.isValid = true) : ofText? t.text = some t := by
  have hvalid := h
  simp only [isValid, Date.isValid, Bool.and_eq_true, decide_eq_true_eq, and_assoc] at hvalid
  obtain ⟨-, -, -, hmonth, -, hday, -⟩ := hvalid
  have hdays := daysInMonth_le t.date.year t.date.month
  have hhyphen : Text.isBlank '-' = false := rfl
  show ofChars? t.text.toList = some t
  rw [toList_text, ofChars?_eq]
  simp only [Option.bind_eq_bind, Option.bind_some, year?_yearText, mark?_self hhyphen,
    number?_two (show t.date.month < 100 by omega), number?_two (show t.date.day < 100 by omega)]
  exact ofTime?_text h

theorem isValid_toUtc {offset : Int} (h : t.isValid = true)
    (hdate : (t.toUtc offset).date.isValid = true) : (t.toUtc offset).isValid = true := by
  simp only [isValid, Bool.and_eq_true, decide_eq_true_eq] at h ⊢
  obtain ⟨⟨_, hsecond⟩, hnanosecond⟩ := h
  refine ⟨⟨⟨⟨hdate, ?_⟩, ?_⟩, hsecond⟩, hnanosecond⟩
  · show ((60 * t.hour + t.minute - offset : Int) % 1440).toNat / 60 < 24
    omega
  · show ((60 * t.hour + t.minute - offset : Int) % 1440).toNat % 60 < 60
    omega

theorem isValid_of_ofTime? {date : Date} {cs : List Char} (h : ofTime? date cs = some t) :
    t.isValid = true := by
  unfold ofTime? at h
  simp only [Option.bind_eq_bind, Option.bind_eq_some_iff] at h
  obtain ⟨_, -, _, -, _, -, _, -, _, -, _, -, _, -, _, -, _, hhere, _, hdate, h⟩ := h
  obtain rfl := Option.some.inj h
  exact isValid_toUtc ((Option.guard_eq_some' _).mp hhere) ((Option.guard_eq_some' _).mp hdate)

theorem isValid_of_ofText? {s : String} (h : ofText? s = some t) : t.isValid = true := by
  change ofChars? s.toList = some t at h
  rw [ofChars?_eq] at h
  simp only [Option.bind_eq_bind, Option.bind_eq_some_iff] at h
  obtain ⟨_, -, _, -, _, -, _, -, _, -, h⟩ := h
  -- whichever letter stands between date and time
  split at h
  · exact isValid_of_ofTime? h
  · exact isValid_of_ofTime? h
  · exact isValid_of_ofTime? h
  · cases h

end

end Relay.Timestamp
