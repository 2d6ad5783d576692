import Relay.Policy
import Relay.Proofs.Number.Binary64
import Relay.Proofs.Timestamp
import Relay.Proofs.Wire.Slots
import Relay.Transport

/-!
# Scalars are read back

The fields of records are texts, flags, values, numbers and members of enumerations, all of which are
read back as they were written. Two need a reason: a timestamp is read back if it is valid, and a double
if it is finite, since all others are written as null. What is read is always such a timestamp
(`isValid_of_read`), and such a double if it is read from a number that JSON can say
(`isFinite_of_read`).

`Json.Representable` are the values whose numbers are integers of 64 bits or finite doubles.
-/

namespace Relay

/-- the values of JSON: a number is an integer of 64 bits, with or without a sign, or a finite double -/
inductive Json.Representable : Json → Prop
  | null : Representable .null
  | bool (b : Bool) : Representable (.bool b)
  | int {i : Int} (low : -0x8000000000000000 ≤ i) (high : i ≤ 0xFFFFFFFFFFFFFFFF) : Representable (.int i)
  | float {x : Binary64} (finite : x.isFinite = true) : Representable (.num (.float x))
  | str (s : String) : Representable (.str s)
  | arr {items : List Json} (h : ∀ v ∈ items, Representable v) : Representable (.arr items)
  | obj {fields : List (String × Json)} (h : ∀ f ∈ fields, Representable f.2) : Representable (.obj fields)

namespace Wire

theorem faithful_string (s : String) : Faithful s := rfl

theorem faithful_bool (b : Bool) : Faithful b := rfl

theorem faithful_json (v : Json) : Faithful v := rfl

/-! ## numbers -/

theorem readInt_int {low high i : Int} (hlow : low ≤ i) (hhigh : i ≤ high) :
    readInt low high (Json.int i) = some i := by
  show (if _ then some i else none) = some i
  rw [if_pos (by simp [hlow, hhigh])]

theorem faithful_int64 (n : Int64) : Faithful n := by
  have hlow := n.le_toInt
  have hhigh := n.toInt_lt
  show (readInt _ _ (Json.int n.toInt)).map Int64.ofInt = some n
  rw [readInt_int (by omega) (by omega)]
  exact congrArg some n.ofInt_toInt

theorem faithful_nat (n : Nat) : Faithful n := by
  show (if 0 ≤ (n : Int) then some (n : Int).toNat else none) = some n
  rw [if_pos (Int.natCast_nonneg n), Int.toNat_natCast]

theorem faithful_uint32 (n : UInt32) : Faithful n := by
  have hhigh := n.toNat_lt
  show (readInt _ _ (Json.int n.toNat)).map (fun i => UInt32.ofNat i.toNat) = some n
  rw [readInt_int (by omega) (by omega)]
  exact congrArg some n.ofNat_toNat

theorem faithful_uint64 (n : UInt64) : Faithful n := by
  have hhigh := n.toNat_lt
  show (readInt _ _ (Json.int n.toNat)).map (fun i => UInt64.ofNat i.toNat) = some n
  rw [readInt_int (by omega) (by omega)]
  exact congrArg some n.ofNat_toNat

theorem faithful_double {x : Binary64} (h : x.isFinite = true) : Faithful x := by
  show read (if x.isFinite then Json.num (.float x) else .null) = some x
  rw [if_pos h]
  rfl

theorem isFinite_of_read {v : Json} {x : Binary64} (hv : v.Representable) (h : ofJson? v = some x) :
    x.isFinite = true := by
  cases hv with
  | @int i low high =>
    have hx : some (Binary64.ofInt i) = some x := h
    rw [← Option.some.inj hx]
    exact Binary64.isFinite_ofInt (by omega)
  | @float y finite =>
    have hx : some y = some x := h
    rw [← Option.some.inj hx]
    exact finite
  | null | bool | str | arr | obj => cases h

/-! ## timestamps -/

theorem ofJson?_str (s : String) : (ofJson? (.str s) : Option Timestamp) = Timestamp.ofText? s := rfl

theorem faithful_timestamp {t : Timestamp} (h : t.isValid = true) : Faithful t := by
  have htext : toJson t = .str t.text := rfl
  rw [Faithful, htext, ofJson?_str, Timestamp.ofText?_text h]

theorem isValid_of_read {v : Json} {t : Timestamp} (h : ofJson? v = some t) : t.isValid = true := by
  cases v with
  | str s => exact Timestamp.isValid_of_ofText? (ofJson?_str s ▸ h)
  | null | bool | num | arr | obj => cases h

/-! ## enumerations -/

theorem faithful_transport (t : Transport) : Faithful t := by
  cases t <;> rfl

theorem faithful_mode (m : Policy.Mode) : Faithful m := by
  have hname : Policy.Mode.ofText m.name = m := by
    cases m <;> decide +kernel
  exact congrArg some hname

end Wire

end Relay
