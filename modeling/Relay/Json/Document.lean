import Relay.Json.Token

/-!
# JSON documents

A `Document` is what a JSON text says before anything is done with it: fields keep their order and
may repeat. A part that denotes no value is `unusable`: a number beyond the doubles, a text with an
unpaired surrogate, an object with such a text for a key, and anything nested deeper than
`depthLimit`. An unusable part may be skipped, but a reader that needs it fails.

`Document.parse?` reads a whole text; `Document.payload?` is the value of a document without
unusable parts, with sorted fields of which the last of a key counts.
-/

namespace Relay.Json

/-- the parsed form of a JSON text -/
inductive Document
  | null
  | bool (b : Bool)
  | num (n : Number)
  | str (s : String)
  | arr (items : List Document)
  | obj (fields : List (String × Document))
  | unusable
deriving Inhabited

namespace Document

/-- how many arrays and objects may lie around a usable part -/
def depthLimit : Nat := 127

/-- an array or object whose end has not been read, with its parts in reverse -/
inductive Frame
  | arr (items : List Document)
  | obj (fields : List (Option String × Document)) (key : Option String)

/-- what may come next -/
inductive Expected
  | value
  | valueOrEnd
  | key
  | keyOrEnd
  | colon (key : Option String)
  | separator
  | nothing (whole : Document)

/-- whether an array or object inside these frames has no place for parts -/
def tooDeep (outer : List Frame) : Bool := !(outer.drop (depthLimit - 1)).isEmpty

/-- the fields in order, if every key is usable -/
def fields? (reversed : List (Option String × Document)) : Option (List (String × Document)) :=
  reversed.foldl (fun fs f => do return (← f.1, f.2) :: (← fs)) (some [])

/-- the array that ends here -/
def closeArray (outer : List Frame) (reversed : List Document) : Document :=
  if tooDeep outer then .unusable else .arr reversed.reverse

/-- the object that ends here -/
def closeObject (outer : List Frame) (reversed : List (Option String × Document)) : Document :=
  if tooDeep outer then .unusable
  else match fields? reversed with
    | some fields => .obj fields
    | none => .unusable

def ofScalar? : Token → Option Document
  | .null => some .null
  | .bool b => some (.bool b)
  | .num (some n) => some (.num n)
  | .str (some s) => some (.str s)
  | .num none | .str none => some .unusable
  | _ => none

/-- what is open and what comes next after a finished part -/
def settle (d : Document) : List Frame → List Frame × Expected
  | .arr items :: outer => (.arr (d :: items) :: outer, .separator)
  | .obj fields key :: outer => (.obj ((key, d) :: fields) none :: outer, .separator)
  | [] => ([], .nothing d)

def stepValue (frames : List Frame) : Token → Option (List Frame × Expected)
  | .openArray => some (.arr [] :: frames, .valueOrEnd)
  | .openObject => some (.obj [] none :: frames, .keyOrEnd)
  | t => (ofScalar? t).map (settle · frames)

/-- one token, inside the given frames -/
def step : List Frame → Expected → Token → Option (List Frame × Expected)
  | .arr items :: outer, .valueOrEnd, .closeArray => some (settle (closeArray outer items) outer)
  | .arr items :: outer, .separator, .closeArray => some (settle (closeArray outer items) outer)
  | .obj fields _ :: outer, .keyOrEnd, .closeObject => some (settle (closeObject outer fields) outer)
  | .obj fields _ :: outer, .separator, .closeObject => some (settle (closeObject outer fields) outer)
  | .arr items :: outer, .separator, .comma => some (.arr items :: outer, .value)
  | .obj fields k :: outer, .separator, .comma => some (.obj fields k :: outer, .key)
  | frames, .key, .str key => some (frames, .colon key)
  | frames, .keyOrEnd, .str key => some (frames, .colon key)
  | .obj fields _ :: outer, .colon key, .colon => some (.obj fields key :: outer, .value)
  | frames, .value, t => stepValue frames t
  | frames, .valueOrEnd, t => stepValue frames t
  | _, _, _ => none

/-- reads the tokens, inside the given frames -/
def build : List Frame → Expected → List Token → Option Document
  | [], .nothing d, [] => some d
  | _, _, [] => none
  | frames, expected, t :: ts =>
    match step frames expected t with
    | some (frames, expected) => build frames expected ts
    | none => none

/-- reads a JSON text -/
def parse? (text : String) : Option Document :=
  (Token.scan [] text.toList).bind (build [] .value)

/-! ## the value of a document -/

mutual

/-- the value of a document, if no part is unusable -/
def payload? : Document → Option Json
  | null => some .null
  | bool b => some (.bool b)
  | num n => some (.num n)
  | str s => some (.str s)
  | arr items => (payloads? items).map .arr
  | obj fields => (fieldPayloads? fields).map Json.object
  | unusable => none

def payloads? : List Document → Option (List Json)
  | [] => some []
  | d :: ds => do return (← d.payload?) :: (← payloads? ds)

/-- the fields with their values -/
def fieldPayloads? : List (String × Document) → Option (List (String × Json))
  | [] => some []
  | (k, d) :: ds => do return (k, ← d.payload?) :: (← fieldPayloads? ds)

end

end Document

def parse? (text : String) : Option Json := (Document.parse? text).bind Document.payload?

end Relay.Json
