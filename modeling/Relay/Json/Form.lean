import Relay.Json.Quoted
import Relay.Number.Layout
import Relay.Json

/-!
# Written forms

A `Form` is what a value of the library looks like on the wire. The fields of a record stand in the
order of its declaration, those of a payload in the order of its table. `Form.text` writes the
compact JSON text; `Form.json` forgets the declared order and sorts the fields of records as in any
object.
-/

namespace Relay

namespace Number

def text : Number → String
  | int i => toString i
  | float x => Layout.json.number x

end Number

namespace Json

mutual

/-- the compact text of a value, appended to `before` -/
def write (before : String) : Json → String
  | null => before ++ "null"
  | bool b => before ++ (if b then "true" else "false")
  | num n => before ++ n.text
  | str s => before ++ Quoted.write s
  | arr items => writeItems (before ++ "[") true items ++ "]"
  | obj fields => writeFields (before ++ "\x7b") true fields ++ "\x7d"

/-- the items of an array, with commas between them -/
def writeItems (before : String) (first : Bool) : List Json → String
  | [] => before
  | v :: vs => writeItems (write (if first then before else before ++ ",") v) false vs

/-- the fields of an object, with commas between them -/
def writeFields (before : String) (first : Bool) : List (String × Json) → String
  | [] => before
  | (k, v) :: fs =>
    writeFields (write ((if first then before else before ++ ",") ++ Quoted.write k ++ ":") v) false fs

end

/-- the compact text of a value -/
def text (v : Json) : String := write "" v

end Json

/-- the written form of a value -/
inductive Form
  | payload (v : Json)
  | record (fields : List (String × Form))
  | list (items : List Form)

namespace Form

def str (s : String) : Form := .payload (.str s)

def int (i : Int) : Form := .payload (.int i)

def bool (b : Bool) : Form := .payload (.bool b)

mutual

/-- the value of a form: the fields of records are sorted -/
def json : Form → Json
  | payload v => v
  | record fields => Json.object (fieldsJson fields)
  | list items => .arr (itemsJson items)

/-- the values of forms -/
def itemsJson : List Form → List Json
  | [] => []
  | f :: fs => f.json :: itemsJson fs

/-- fields with the values of their forms -/
def fieldsJson : List (String × Form) → List (String × Json)
  | [] => []
  | (k, f) :: fs => (k, f.json) :: fieldsJson fs

end

mutual

/-- the compact text of a form, appended to `before` -/
def write (before : String) : Form → String
  | payload v => v.write before
  | record fields => writeFields (before ++ "\x7b") true fields ++ "\x7d"
  | list items => writeItems (before ++ "[") true items ++ "]"

/-- the items of a list, with commas between them -/
def writeItems (before : String) (first : Bool) : List Form → String
  | [] => before
  | f :: fs => writeItems (write (if first then before else before ++ ",") f) false fs

/-- the fields of a record, with commas between them -/
def writeFields (before : String) (first : Bool) : List (String × Form) → String
  | [] => before
  | (k, f) :: fs =>
    writeFields (write ((if first then before else before ++ ",") ++ Json.Quoted.write k ++ ":") f)
      false fs

end

def text (f : Form) : String := write "" f

end Form

end Relay
