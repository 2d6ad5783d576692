import Relay.Reading
import Relay.Toml.Moment

/-!
# TOML values

`Toml` is what a configuration text denotes. Tables are sorted by key.

`Toml.overlay` lays one value over another: tables are laid over key by key, anything else takes the
place of what is below. `lookup_overlayFields_of_none` says that a key which the overlay does not have
keeps its value.

Records are read from TOML values as they are from JSON, where a moment is read as its text.
-/

namespace Relay

/-- a TOML value -/
inductive Toml
  | string (s : String)
  | integer (i : Int)
  | float (x : Binary64)
  | boolean (b : Bool)
  | moment (m : Toml.Moment)
  | array (items : List Toml)
  | table (fields : List (String × Toml))
deriving Repr, Inhabited

namespace Toml

/-- the table with no fields -/
def emptyTable : Toml := .table []

/-! ## overlays -/

mutual

/-- `above` laid over `base` -/
def overlay (base above : Toml) : Toml :=
  match above with
  | table fields =>
    match base with
    | table below => table (overlayFields below fields)
    | _ => table fields
  | other => other

/-- the fields laid over those of `base` -/
def overlayFields (base : List (String × Toml)) : List (String × Toml) → List (String × Toml)
  | [] => base
  | (key, value) :: rest =>
    let laid := match base.lookup key with
      | some below => overlay below value
      | none => value
    overlayFields (Table.put key laid base) rest

end

/-! ## as JSON -/

mutual

/-- the JSON value of a value; what JSON cannot say is null -/
def json : Toml → Json
  | string s => .str s
  | integer i => .int i
  | float x => if x.isFinite then .num (.float x) else .null
  | boolean b => .bool b
  | moment m => .str m.text
  | array items => .arr (itemsJson items)
  | table fields => Json.object (fieldsJson fields)

def itemsJson : List Toml → List Json
  | [] => []
  | v :: vs => v.json :: itemsJson vs

/-- the fields with their JSON values -/
def fieldsJson : List (String × Toml) → List (String × Json)
  | [] => []
  | (key, v) :: rest => (key, v.json) :: fieldsJson rest

end

/-- whether an integer is in range -/
def isInteger (i : Int) : Bool := -0x8000000000000000 ≤ i && i ≤ 0x7FFFFFFFFFFFFFFF

mutual

/-- the value that a JSON value says; there is no null -/
def ofJson? : Json → Option Toml
  | .null => none
  | .bool b => some (boolean b)
  | .num (.int i) => if isInteger i then some (integer i) else none
  | .num (.float x) => some (float x)
  | .str s => some (string s)
  | .arr items => (ofItems? items).map array
  | .obj fields => (ofFields? fields).map table

/-- the values that items say -/
def ofItems? : List Json → Option (List Toml)
  | [] => some []
  | v :: vs => do return (← ofJson? v) :: (← ofItems? vs)

/-- the fields with the values that they say -/
def ofFields? : List (String × Json) → Option (List (String × Toml))
  | [] => some []
  | (key, v) :: rest => do return (key, ← ofJson? v) :: (← ofFields? rest)

end

/-! ## reading -/

/-- the outermost layer of a value -/
def shape : Toml → Shape Toml
  | string s => .text s
  | integer i => .num (.int i)
  | float x => .num (.float x)
  | boolean b => .bool b
  | moment m => .text m.text
  | array items => .items items
  | table fields => .fields fields

/-- whether a value is an array or a table with nothing in it -/
def isHollow : Toml → Bool
  | array [] => true
  | table [] => true
  | _ => false

instance : Readable Toml := ⟨shape, fun v => some v.json, isHollow⟩

theorem overlay_table (below fields : List (String × Toml)) :
    overlay (table below) (table fields) = table (overlayFields below fields) := by
  rw [overlay]

/-- a key that is laid over holds what it held if the overlay does not have it -/
theorem lookup_overlayFields_of_none (key : String) (above base : List (String × Toml))
    (h : above.lookup key = none) : (overlayFields base above).lookup key = base.lookup key := by
  induction above generalizing base with
  | nil => rw [overlayFields]
  | cons b rest ih =>
    obtain ⟨k, v⟩ := b
    rw [List.lookup_cons] at h
    split at h
    · exact absurd h (by simp)
    · rename_i hk
      rw [overlayFields, ih _ h, Table.lookup_put_of_ne (by simpa using hk)]

end Toml

end Relay
