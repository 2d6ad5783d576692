import Relay.Number.Binary64
import Relay.Table

/-!
# JSON values

`Json` is the payload type of the whole library: tool arguments, tool results, workflow inputs. A
number is an integer or a double; the two never compare equal. The fields of an object are a table
read by key. `Json.object` builds the sorted table of a list of fields, and `Json.kind` names the
six kinds of value in messages.
-/

namespace Relay

/-- a JSON number -/
inductive Number
  | int (i : Int)
  | float (x : Binary64)
deriving DecidableEq, Repr

/-- a JSON value -/
inductive Json
  | null
  | bool (b : Bool)
  | num (n : Number)
  | str (s : String)
  | arr (items : List Json)
  | obj (fields : List (String × Json))
deriving Repr, Inhabited

namespace Json

mutual

/-- equality of values, decided -/
def decEq : (v w : Json) → Decidable (v = w)
  | null, w => by
    cases w <;> first | exact .isTrue rfl | exact .isFalse Json.noConfusion
  | bool a, w => by
    cases w
    case bool b =>
      exact if h : a = b then .isTrue (h ▸ rfl) else .isFalse (fun e => h (Json.bool.inj e))
    all_goals exact .isFalse Json.noConfusion
  | num a, w => by
    cases w
    case num b =>
      exact if h : a = b then .isTrue (h ▸ rfl) else .isFalse (fun e => h (Json.num.inj e))
    all_goals exact .isFalse Json.noConfusion
  | str a, w => by
    cases w
    case str b =>
      exact if h : a = b then .isTrue (h ▸ rfl) else .isFalse (fun e => h (Json.str.inj e))
    all_goals exact .isFalse Json.noConfusion
  | arr a, w => by
    cases w
    case arr b =>
      exact match decEqItems a b with
        | .isTrue h => .isTrue (h ▸ rfl)
        | .isFalse h => .isFalse (fun e => h (Json.arr.inj e))
    all_goals exact .isFalse Json.noConfusion
  | obj a, w => by
    cases w
    case obj b =>
      exact match decEqFields a b with
        | .isTrue h => .isTrue (h ▸ rfl)
        | .isFalse h => .isFalse (fun e => h (Json.obj.inj e))
    all_goals exact .isFalse Json.noConfusion

/-- equality of lists of values, decided -/
def decEqItems : (vs ws : List Json) → Decidable (vs = ws)
  | [], [] => .isTrue rfl
  | [], _ :: _ => .isFalse (by simp)
  | _ :: _, [] => .isFalse (by simp)
  | v :: vs, w :: ws =>
    match decEq v w, decEqItems vs ws with
    | .isTrue h, .isTrue hs => .isTrue (h ▸ hs ▸ rfl)
    | .isFalse h, _ => .isFalse (fun e => h (List.cons.inj e).1)
    | _, .isFalse hs => .isFalse (fun e => hs (List.cons.inj e).2)

def decEqFields : (fs gs : List (String × Json)) → Decidable (fs = gs)
  | [], [] => .isTrue rfl
  | [], _ :: _ => .isFalse (by simp)
  | _ :: _, [] => .isFalse (by simp)
  | (k, v) :: fs, (l, w) :: gs =>
    match decEq v w, decEqFields fs gs with
    | .isTrue h, .isTrue hs =>
      if hk : k = l then .isTrue (hk ▸ h ▸ hs ▸ rfl)
      else .isFalse (fun e => hk (Prod.mk.inj (List.cons.inj e).1).1)
    | .isFalse h, _ => .isFalse (fun e => h (Prod.mk.inj (List.cons.inj e).1).2)
    | _, .isFalse hs => .isFalse (fun e => hs (List.cons.inj e).2)

end

instance : DecidableEq Json := decEq

/-- the object of a list of fields: sorted by key, of two fields with one key the later -/
def object (fields : List (String × Json)) : Json := .obj (Table.ofList fields)

/-- the object with no fields -/
def emptyObject : Json := .obj []

/-- an integer -/
def int (i : Int) : Json := .num (.int i)

/-- the word for the kind of a value -/
def kind : Json → String
  | null => "null"
  | bool _ => "boolean"
  | num _ => "number"
  | str _ => "string"
  | arr _ => "array"
  | obj _ => "object"

/-- the value of a field, if the value is an object that has it -/
def field? (key : String) : Json → Option Json
  | obj fields => fields.lookup key
  | _ => none

def asText? : Json → Option String
  | str s => some s
  | _ => none

def asBool? : Json → Option Bool
  | bool b => some b
  | _ => none

def asItems? : Json → Option (List Json)
  | arr items => some items
  | _ => none

def isNull : Json → Bool
  | null => true
  | _ => false

theorem isNull_iff (v : Json) : v.isNull = true ↔ v = null := by
  cases v <;> simp [isNull]

end Json

end Relay
