import Relay.Text.Split

/-!
# Texts as bytes

`encode` writes characters in UTF-8. `decode` reads bytes, whatever they are: a part that spells no
character is read as U+FFFD. Such a part is a byte that begins no character, or as much of a character as
is there before it breaks off.

What has been written is read back (`decode_encode`). A character of one byte is part of no other
(`mem_utf8EncodeChar_iff`), and so the bytes in front of it and those behind it are read by themselves
(`decode_append_sep`), as they are split by themselves (`split_encode`).
-/

namespace Relay.Text

def encode (cs : List Char) : List UInt8 := cs.flatMap String.utf8EncodeChar

/-- the character that bytes begin with -/
def char? (bytes : List UInt8) : Option Char := bytes.toByteArray.utf8DecodeChar? 0

/-- the character in place of what spells none -/
def replacement : Char := '\uFFFD'

def isWithin (least greatest : Nat) (b : UInt8) : Bool := least ≤ b.toNat && b.toNat ≤ greatest

/-- whether a byte goes on with a character -/
def isTail (b : UInt8) : Bool := isWithin 0x80 0xBF b

/-- whether a byte may be the second of a character; what the first one narrows down are longer forms of
small numbers, surrogates and numbers too large -/
def isSecond (first second : UInt8) : Bool :=
  if first = 0xE0 then isWithin 0xA0 0xBF second
  else if first = 0xED then isWithin 0x80 0x9F second
  else if first = 0xF0 then isWithin 0x90 0xBF second
  else if first = 0xF4 then isWithin 0x80 0x8F second
  else isWithin 0xC2 0xF4 first && isTail second

/-- how many bytes behind the first belong to a part that spells no character -/
def unfinished (first : UInt8) : List UInt8 → Nat
  | [] => 0
  -- the tails are too few for the first byte, or they would make a character with it
  | second :: bytes => if isSecond first second then 1 + (bytes.takeWhile isTail).length else 0

/-- what bytes are read as after some that count as read -/
def decodeFrom : Nat → List UInt8 → List Char
  | _, [] => []
  | read + 1, _ :: bytes => decodeFrom read bytes
  | 0, b :: bytes =>
    match char? (b :: bytes) with
    | some c => c :: decodeFrom (c.utf8Size - 1) bytes
    | none => replacement :: decodeFrom (unfinished b bytes) bytes

def decode (bytes : List UInt8) : List Char := decodeFrom 0 bytes

/-! ## characters at the front -/

section
variable (c : Char) (bytes : List UInt8)

theorem encode_cons (cs : List Char) : encode (c :: cs) = String.utf8EncodeChar c ++ encode cs := rfl

theorem encode_append (cs ds : List Char) : encode (cs ++ ds) = encode cs ++ encode ds :=
  List.flatMap_append

theorem char?_append : char? (String.utf8EncodeChar c ++ bytes) = some c := by
  rw [char?, List.toByteArray_append]
  exact ByteArray.utf8DecodeChar?_utf8EncodeChar_append

theorem exists_eq_append_of_char? {c : Char} {bytes : List UInt8} (h : char? bytes = some c) :
    ∃ rest, bytes = String.utf8EncodeChar c ++ rest := by
  have hsome : (bytes.toByteArray.utf8DecodeChar? 0).isSome = true := Option.isSome_of_eq_some h
  have hchar : bytes.toByteArray.utf8DecodeChar 0 hsome = c := Option.get_of_eq_some hsome h
  have hfront := @ByteArray.utf8EncodeChar_utf8DecodeChar bytes.toByteArray 0 hsome
  rw [hchar] at hfront
  have htake : String.utf8EncodeChar c = bytes.take (0 + c.utf8Size) := by
    have hdata := congrArg (fun b => b.data.toList) hfront
    simpa only [ByteArray.data_extract, List.data_toByteArray, Array.toList_extract,
      List.extract_eq_drop_take', List.drop_zero] using hdata
  exact ⟨bytes.drop (0 + c.utf8Size), by rw [htake, List.take_append_drop]⟩

/-- a byte below 0x80 stands for itself, and all bytes of other characters are above -/
theorem toNat_of_mem_utf8EncodeChar {b : UInt8} (hb : b.toNat < 0x80)
    (h : b ∈ String.utf8EncodeChar c) : c.val.toNat = b.toNat := by
  unfold String.utf8EncodeChar at h
  simp only at h
  split at h
  case isTrue =>
    rw [List.mem_singleton, ← UInt8.toNat_inj, UInt8.toNat_ofNat'] at h
    omega
  case isFalse =>
    repeat' split at h
    all_goals
      simp only [List.mem_cons, List.not_mem_nil, or_false, ← UInt8.toNat_inj,
        UInt8.toNat_ofNat'] at h
      omega

end

/-! ## reading -/

theorem decodeFrom_eq (read : Nat) (bytes : List UInt8) :
    decodeFrom read bytes = decode (bytes.drop read) := by
  induction bytes generalizing read with
  | nil => cases read <;> rfl
  | cons b bytes ih =>
    cases read with
    | zero => rfl
    | succ read => exact ih read

theorem decode_utf8EncodeChar_append (c : Char) (bytes : List UInt8) :
    decode (String.utf8EncodeChar c ++ bytes) = c :: decode bytes := by
  have hchar := char?_append c bytes
  obtain ⟨b, tail, hcons⟩ := List.exists_cons_of_ne_nil (@String.utf8EncodeChar_ne_nil c)
  have hlength : c.utf8Size - 1 = tail.length := by
    rw [← String.length_utf8EncodeChar, hcons, List.length_cons, Nat.add_sub_cancel]
  rw [hcons, List.cons_append] at hchar ⊢
  simp only [decode, decodeFrom, hchar]
  rw [decodeFrom_eq, hlength, List.drop_left]
  rfl

theorem decode_of_char?_none {b : UInt8} {bytes : List UInt8} (h : char? (b :: bytes) = none) :
    decode (b :: bytes) = replacement :: decode (bytes.drop (unfinished b bytes)) := by
  simp only [decode, decodeFrom, h]
  exact congrArg _ (decodeFrom_eq _ _)

example : decode [0xF0, 0x90, 0x80, 0x57, 0xFF] = ['\uFFFD', 'W', '\uFFFD'] := by decide

/-- **what has been written is read back** -/
theorem decode_encode (cs : List Char) : decode (encode cs) = cs := by
  induction cs with
  | nil => rfl
  | cons c cs ih => rw [encode_cons, decode_utf8EncodeChar_append, ih]

theorem encode_inj (cs ds : List Char) : encode cs = encode ds ↔ cs = ds :=
  ⟨fun h => by rw [← decode_encode cs, h, decode_encode], congrArg encode⟩

/-- bytes are read one part after the other: a character, or what spells none -/
@[elab_as_elim]
theorem readingInduction {motive : List UInt8 → Prop} (nil : motive [])
    (char : ∀ c bytes, motive bytes → motive (String.utf8EncodeChar c ++ bytes))
    (broken : ∀ b bytes, char? (b :: bytes) = none →
      motive (bytes.drop (unfinished b bytes)) → motive (b :: bytes))
    (bytes : List UInt8) : motive bytes := by
  induction hn : bytes.length using Nat.strongRecOn generalizing bytes with
  | _ n ih =>
    cases bytes with
    | nil => exact nil
    | cons b bytes =>
      cases hchar : char? (b :: bytes) with
      | some c =>
        obtain ⟨rest, hrest⟩ := exists_eq_append_of_char? hchar
        rw [hrest]
        refine char c rest (ih rest.length ?_ rest rfl)
        rw [← hn, hrest, List.length_append, String.length_utf8EncodeChar]
        have := c.utf8Size_pos
        omega
      | none =>
        refine broken b bytes hchar (ih _ ?_ _ rfl)
        rw [← hn, List.length_drop, List.length_cons]
        omega

theorem decode_eq_nil_iff (bytes : List UInt8) : decode bytes = [] ↔ bytes = [] := by
  cases bytes with
  | nil => exact iff_of_true rfl rfl
  | cons b bytes =>
    have hne : decode (b :: bytes) ≠ [] := by
      rw [decode, decodeFrom]
      split <;> exact List.cons_ne_nil _ _
    exact iff_of_false hne (List.cons_ne_nil b bytes)

/-! ## characters of one byte -/

theorem isTail_eq_false {b : UInt8} (hb : b.toNat < 0x80) : isTail b = false := by
  have hnot : ¬0x80 ≤ b.toNat := by omega
  simp [isTail, isWithin, hnot]

theorem isSecond_eq_false {first b : UInt8} (hb : b.toNat < 0x80) : isSecond first b = false := by
  have hnone : ∀ least greatest, 0x80 ≤ least → isWithin least greatest b = false := by
    intro least greatest hleast
    have hnot : ¬least ≤ b.toNat := by omega
    simp [isWithin, hnot]
  simp [isSecond, hnone, isTail_eq_false hb]

theorem unfinished_le (first : UInt8) (bytes : List UInt8) : unfinished first bytes ≤ bytes.length := by
  cases bytes with
  | nil => exact Nat.le_refl 0
  | cons second bytes =>
    have htail : (bytes.takeWhile isTail).length ≤ bytes.length :=
      (List.takeWhile_prefix isTail).length_le
    rw [List.length_cons, unfinished]
    split
    · omega
    · exact Nat.zero_le _

section
variable {sep : Char} {b : UInt8} (hsep : String.utf8EncodeChar sep = [b])
include hsep

theorem toNat_sep : b.toNat < 0x80 ∧ sep.val.toNat = b.toNat := by
  have hsize : sep.utf8Size = 1 := by
    rw [← String.length_utf8EncodeChar, hsep]
    rfl
  have hval : sep.val.toNat ≤ 127 := UInt32.le_iff_toNat_le.mp (Char.utf8Size_eq_one_iff.mp hsize)
  have hbyte : b = sep.val.toUInt8 := by
    rw [String.utf8EncodeChar_eq_singleton hsize] at hsep
    exact (List.singleton_inj.mp hsep).symm
  rw [hbyte, UInt32.toNat_toUInt8]
  omega

theorem mem_utf8EncodeChar_iff (c : Char) : b ∈ String.utf8EncodeChar c ↔ c = sep := by
  obtain ⟨hb, heq⟩ := toNat_sep hsep
  constructor
  · intro h
    have hc := toNat_of_mem_utf8EncodeChar c hb h
    exact Char.ext (UInt32.toNat_inj.mp (hc.trans heq.symm))
  · rintro rfl
    rw [hsep]
    exact List.mem_singleton_self b

theorem char?_append_sep {first : UInt8} {bytes : List UInt8} (h : char? (first :: bytes) = none)
    (more : List UInt8) : char? (first :: (bytes ++ b :: more)) = none := by
  cases hchar : char? (first :: (bytes ++ b :: more)) with
  | none => rfl
  | some c =>
    obtain ⟨rest, hrest⟩ := exists_eq_append_of_char? hchar
    rw [← List.cons_append] at hrest
    -- the character ends in front of the separator, or holds it
    rcases List.append_eq_append_iff.mp hrest with ⟨behind, hc, hmore⟩ | ⟨behind, hbytes, -⟩
    · cases behind with
      | nil =>
        rw [List.append_nil] at hc
        rw [← hc, ← List.append_nil (String.utf8EncodeChar c), char?_append] at h
        cases h
      | cons next behind =>
        obtain ⟨rfl, -⟩ := List.cons.inj hmore
        have hmem : b ∈ String.utf8EncodeChar c := by simp [hc]
        obtain rfl := (mem_utf8EncodeChar_iff hsep c).mp hmem
        rw [hsep] at hc
        simp at hc
    · rw [hbytes, char?_append] at h
      cases h

theorem unfinished_append_sep (first : UInt8) (bytes more : List UInt8) :
    unfinished first (bytes ++ b :: more) = unfinished first bytes := by
  obtain ⟨hb, -⟩ := toNat_sep hsep
  cases bytes with
  | nil => simp [unfinished, isSecond_eq_false hb]
  | cons second bytes =>
    have htail : (bytes ++ b :: more).takeWhile isTail = bytes.takeWhile isTail := by
      rw [List.takeWhile_append, List.takeWhile_cons_of_neg (by simp [isTail_eq_false hb])]
      split
      · rename_i hall
        rw [List.append_nil, (List.takeWhile_prefix isTail).eq_of_length hall]
      · rfl
    simp only [List.cons_append, unfinished, htail]

/-- **what stands in front of a character of one byte is read by itself, and what stands behind it** -/
theorem decode_append_sep (bytes more : List UInt8) :
    decode (bytes ++ b :: more) = decode bytes ++ sep :: decode more := by
  induction bytes using readingInduction with
  | nil =>
    have hfront := decode_utf8EncodeChar_append sep more
    rw [hsep] at hfront
    exact hfront
  | char c bytes ih =>
    rw [List.append_assoc, decode_utf8EncodeChar_append, ih, decode_utf8EncodeChar_append,
      List.cons_append]
  | broken first bytes h ih =>
    rw [List.cons_append, decode_of_char?_none (char?_append_sep hsep h more),
      unfinished_append_sep hsep, List.drop_append_of_le_length (unfinished_le first bytes), ih,
      decode_of_char?_none h, List.cons_append]

theorem exists_append_of_decode {bytes : List UInt8} {cs : List Char} (h : decode bytes = cs ++ [sep]) :
    ∃ front, bytes = front ++ [b] := by
  induction bytes using readingInduction generalizing cs with
  | nil => exact absurd h.symm (List.append_ne_nil_of_right_ne_nil cs (List.cons_ne_nil sep []))
  | char c bytes ih =>
    rw [decode_utf8EncodeChar_append] at h
    cases cs with
    | nil =>
      obtain ⟨rfl, hnil⟩ := List.cons.inj h
      exact ⟨[], by rw [(decode_eq_nil_iff bytes).mp hnil, hsep]; rfl⟩
    | cons _ cs =>
      obtain ⟨front, rfl⟩ := ih (List.cons.inj h).2
      exact ⟨String.utf8EncodeChar c ++ front, (List.append_assoc _ _ _).symm⟩
  | broken first bytes hnone ih =>
    rw [decode_of_char?_none hnone] at h
    cases cs with
    | nil =>
      obtain ⟨rfl, -⟩ := List.cons.inj h
      cases hsep
    | cons _ cs =>
      obtain ⟨front, hfront⟩ := ih (List.cons.inj h).2
      refine ⟨first :: (bytes.take (unfinished first bytes) ++ front), ?_⟩
      rw [List.cons_append, List.append_assoc, ← hfront, List.take_append_drop]

/-! ## splitting -/

theorem split_encode (cs : List Char) : split b (encode cs) = (split sep cs).map encode := by
  induction cs with
  | nil => rfl
  | cons c cs ih =>
    rw [encode_cons]
    by_cases hc : c = sep
    · subst hc
      rw [hsep, List.singleton_append, split_cons_sep, split_cons_sep, ih]
      rfl
    · cases hs : split sep cs with
      | nil => exact absurd hs (split_ne_nil sep cs)
      | cons run runs =>
        have hnot : b ∉ String.utf8EncodeChar c := mt (mem_utf8EncodeChar_iff hsep c).mp hc
        rw [hs, List.map_cons] at ih
        rw [split_append_of_not_mem hnot ih, split_cons_of_ne hc hs, List.map_cons, encode_cons]

theorem encode_join (runs : List (List Char)) : encode (join sep runs) = join b (runs.map encode) := by
  induction runs with
  | nil => rfl
  | cons run runs ih =>
    cases runs with
    | nil => rfl
    | cons next runs =>
      rw [List.map_cons] at ih
      rw [join, encode_append, encode_cons, hsep, ih]
      rfl

end

end Relay.Text
