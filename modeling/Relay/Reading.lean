import Relay.Json.Document

/-!
# Reading records

Values reach the library as JSON values, as JSON texts and as configuration tables. A `Readable`
type shows its values by their `Shape`, so that one reader serves all of them.

A record is written as an object or as the list of its leading fields. `Row.ofShape?` brings both
to a list of named fields, in which a reader looks up what it knows; other fields are ignored.

* `Row.required`  the field must be there;
* `Row.defaulted` a field that is not there has a default;
* `Row.optional`  a field that is not there, or null, is absent;
* `Row.elective`  the same, but a record written as a list must have it.

A field that is there twice is an error. `untag?` takes the tag out of a record of several variants.
-/

namespace Relay

/-- a value as a reader sees it -/
inductive Shape (σ : Type)
  | null
  | bool (b : Bool)
  | num (n : Number)
  | text (s : String)
  | items (xs : List σ)
  | fields (fs : List (String × σ))
  | unusable

/-- values that records are read from -/
class Readable (σ : Type) where
  /-- the outermost layer -/
  shape : σ → Shape σ
  /-- the JSON value, if every part is usable -/
  payload? : σ → Option Json
  /-- whether the value may stand for the empty content of a plain variant -/
  isUnit : σ → Bool

namespace Json

/-- the outermost layer of a JSON value -/
def shape : Json → Shape Json
  | null => .null
  | bool b => .bool b
  | num n => .num n
  | str s => .text s
  | arr items => .items items
  | obj fields => .fields fields

instance : Readable Json := ⟨shape, some, isNull⟩

namespace Document

/-- the outermost layer of a document -/
def shape : Document → Shape Document
  | null => .null
  | bool b => .bool b
  | num n => .num n
  | str s => .text s
  | arr items => .items items
  | obj fields => .fields fields
  | unusable => .unusable

def isNull : Document → Bool
  | null => true
  | _ => false

instance : Readable Document := ⟨shape, payload?, isNull⟩

end Document

end Json

open Readable (shape payload? isUnit)

variable {σ : Type} [Readable σ]

/-- reads null as absence -/
def readNullable {α : Type} (read : σ → Option α) (s : σ) : Option (Option α) :=
  match shape s with
  | .null => some none
  | _ => (read s).map some

def readList {α : Type} (read : σ → Option α) (s : σ) : Option (List α) :=
  match shape s with
  | .items xs => xs.mapM read
  | _ => none

/-! ## rows -/

/-- the named fields of a record; `listed` if it was written as a list -/
structure Row (σ : Type) where
  fields : List (String × σ)
  listed : Bool

namespace Row

/-- the fields of a record with the given field names -/
def ofShape? (names : List String) : Shape σ → Option (Row σ)
  | .fields fs => some ⟨fs, false⟩
  | .items xs => if xs.length ≤ names.length then some ⟨names.zip xs, true⟩ else none
  | _ => none

/-- the fields of a record with the given field names -/
def read? (names : List String) (s : σ) : Option (Row σ) := ofShape? names (shape s)

variable {α : Type} (r : Row σ) (name : String) (read : σ → Option α)

def given : List σ := (r.fields.filter (·.1 == name)).map Prod.snd

/-- a field that must be there -/
def required : Option α :=
  match r.given name with
  | [s] => read s
  | _ => none

/-- a field with a default -/
def defaulted (default : α) : Option α :=
  match r.given name with
  | [] => some default
  | [s] => read s
  | _ => none

/-- a field that may be absent or null -/
def optional : Option (Option α) := r.defaulted name (readNullable read) none

/-- a field that may be null, or absent from an object -/
def elective : Option (Option α) :=
  match r.given name with
  | [] => if r.listed then none else some none
  | [s] => readNullable read s
  | _ => none

end Row

/-! ## tagged records -/

/-- the variant that a tag names; inside another tagged record its position names it too -/
def variant? (variants : List String) (inside : Bool) (tag : σ) : Option String :=
  match shape tag with
  | .text name => if name ∈ variants then some name else none
  | .num (.int i) => if inside && 0 ≤ i then variants[i.toNat]? else none
  | _ => none

/-- the variant of a tagged record, and the record without its tag -/
def untag? (key : String) (variants : List String) (inside : Bool) (s : σ) :
    Option (String × Shape σ) :=
  if (payload? s).isNone then none
  else match shape s with
    | .fields fs =>
      match fs.filter (·.1 == key) with
      | [(_, tag)] =>
        (variant? variants inside tag).map (·, .fields (fs.filter (·.1 != key)))
      | _ => none
    | .items (tag :: rest) => (variant? variants inside tag).map (·, .items rest)
    | _ => none

end Relay
