import Relay.Json.Form
import Relay.Reading

/-!
# Wire types

A `Wire` type has a written form and a reader. This module has the scalars and the enumerations; each
record has its form and reader beside its type.

A `Named` type is an enumeration with distinct wire names. `ofName?_name` reads a name back.
-/

namespace Relay

/-- types with a written form and a reader -/
class Wire (α : Type) where
  form : α → Form
  read : {σ : Type} → [Readable σ] → σ → Option α

namespace Wire

variable {α : Type} [Wire α]

/-- the compact JSON text of a value -/
def toText (a : α) : String := (form a).text

/-- the JSON value of a value, with sorted fields -/
def toJson (a : α) : Json := (form a).json

def ofJson? (v : Json) : Option α := read v

def ofText? (text : String) : Option α := (Json.Document.parse? text).bind read

/-- a written field -/
def field (name : String) (a : α) : List (String × Form) := [(name, form a)]

/-- a field that is written if it is there -/
def fieldIfSome (name : String) : Option α → List (String × Form)
  | none => []
  | some a => field name a

/-- a list that is written if it has items -/
def fieldIfAny (name : String) (as : List α) : List (String × Form) :=
  if as.isEmpty then [] else [(name, .list (as.map form))]

/-- a flag that is written if it is set -/
def fieldIfTrue (name : String) (b : Bool) : List (String × Form) :=
  if b then [(name, .bool true)] else []

def fieldList (name : String) (as : List α) : List (String × Form) :=
  [(name, .list (as.map form))]

/-- a field that is null if it is not there -/
def fieldOrNull (name : String) : Option α → List (String × Form)
  | none => [(name, .payload .null)]
  | some a => field name a

end Wire

/-! ## scalars -/

open Readable (shape payload? isUnit)

instance : Wire Json := ⟨.payload, payload?⟩

instance : Wire String where
  form := .str
  read s := match shape s with
    | .text t => some t
    | _ => none

instance : Wire Bool where
  form := .bool
  read s := match shape s with
    | .bool b => some b
    | _ => none

/-- reads an integer in the given range -/
def readInt {σ : Type} [Readable σ] (low high : Int) (s : σ) : Option Int :=
  match shape s with
  | .num (.int i) => if low ≤ i && i ≤ high then some i else none
  | _ => none

instance : Wire Nat where
  form n := .int n
  read s := match shape s with
    | .num (.int i) => if 0 ≤ i then some i.toNat else none
    | _ => none

instance : Wire UInt32 where
  form n := .int n.toNat
  read s := (readInt 0 0xFFFFFFFF s).map (fun i => UInt32.ofNat i.toNat)

instance : Wire UInt64 where
  form n := .int n.toNat
  read s := (readInt 0 0xFFFFFFFFFFFFFFFF s).map (fun i => UInt64.ofNat i.toNat)

instance : Wire Int64 where
  form n := .int n.toInt
  read s := (readInt (-0x8000000000000000) 0x7FFFFFFFFFFFFFFF s).map Int64.ofInt

instance : Wire Binary64 where
  form x := .payload (if x.isFinite then .num (.float x) else .null)
  read s := match shape s with
    | .num (.float x) => some x
    | .num (.int i) => some (Binary64.ofInt i)
    | _ => none

/-! ## enumerations -/

/-- enumerations with distinct wire names -/
class Named (α : Type) where
  all : List α
  name : α → String

namespace Named

variable {α : Type} [Named α]

/-- the member with a name -/
def ofName? (s : String) : Option α := (all (α := α)).find? (fun a => name a == s)

/-- reads a name, or an object of the name alone without content -/
def read {σ : Type} [Readable σ] (s : σ) : Option α :=
  match shape s with
  | .text t => ofName? t
  | .fields [(t, content)] => if isUnit content then ofName? t else none
  | _ => none

/-- the wire type of an enumeration -/
@[reducible] def wire : Wire α := ⟨fun a => .str (name a), read⟩

end Named

end Relay
