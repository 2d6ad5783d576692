import Relay.Toml

/-!
# Drafts of TOML tables

A `Draft` is a value as it is written: a table keeps its fields in the order of the text and remembers
how it came about, for that decides what may still be added to it. A series of tables has a latest one,
which is still open; what is in brackets or braces is closed.

* `toml?`      the value that a draft says. A table whose first field has the name `momentKey` is not a
  table but the moment that the field says, and the rest of it counts for nothing.

* `openTable`  enters the table of a header; it must be new, or only implied by other headers so far;
* `openNext`   enters the next table of a series;
* `insert`     enters the value of a dotted key below an open table;
* `alterAt`    changes the table at the path of a header.
-/

namespace Relay.Toml

/-- how a table came about -/
inductive Origin
  /-- it has a header -/
  | header
  /-- it lies on the path of a header -/
  | implied
  /-- it lies on the path of a dotted key -/
  | dotted
deriving DecidableEq, Repr

/-- a value as it is written -/
inductive Draft
  /-- a word or a quoted text -/
  | plain (v : Toml)
  | array (items : List Draft)
  /-- a table in braces -/
  | closed (fields : List (String × Draft))
  | table (origin : Origin) (fields : List (String × Draft))
  /-- the earlier tables stand in reverse -/
  | series (latest : List (String × Draft)) (earlier : List (List (String × Draft)))

namespace Draft

/-- the fields of a table, in the order of the text -/
abbrev Fields := List (String × Draft)

namespace Fields

/-- binds a key, which keeps its place if it has one and comes last otherwise -/
def set (key : String) (d : Draft) : Fields → Fields
  | [] => [(key, d)]
  | (k, e) :: rest => if k = key then (key, d) :: rest else (k, e) :: set key d rest

end Fields

/-! ## values -/

/-- the name of a first field that makes a moment of its table -/
def momentKey : String := "$__toml_private_datetime"

/-- the moment that a quoted text says -/
def moment? : Draft → Option Toml
  | plain (.string s) => (Moment.ofText? s).map .moment
  | _ => none

mutual

/-- the value that a draft says -/
def toml? : Draft → Option Toml
  | plain v => some v
  | array items => (itemsToml? items).map .array
  | closed fields => tableToml? fields
  | table _ fields => tableToml? fields
  | series latest earlier => do tablesToml? [← tableToml? latest] earlier

/-- the values of items -/
def itemsToml? : List Draft → Option (List Toml)
  | [] => some []
  | d :: rest => do return (← d.toml?) :: (← itemsToml? rest)

/-- the value of a table with the given fields -/
def tableToml? : List (String × Draft) → Option Toml
  | [] => some .emptyTable
  | (key, d) :: rest =>
    if key = momentKey then moment? d
    else do return .table (Table.put key (← d.toml?) (← fieldsToml? rest))

/-- the fields with their values, sorted -/
def fieldsToml? : List (String × Draft) → Option (List (String × Toml))
  | [] => some []
  | (key, d) :: rest => do return Table.put key (← d.toml?) (← fieldsToml? rest)

/-- the values of tables in reverse, before those in `after` -/
def tablesToml? (after : List Toml) : List (List (String × Draft)) → Option Toml
  | [] => some (.array after)
  | fields :: rest => do tablesToml? ((← tableToml? fields) :: after) rest

end

/-! ## headers -/

/-- changes the table at the path of a header; tables that are not there are implied -/
def alterAt (change : Fields → Option Fields) : List String → Fields → Option Fields
  | [], fields => change fields
  | key :: path, fields => do
    let entry ← match fields.lookup key with
      | none => (alterAt change path []).map (table .implied)
      | some (table origin inner) => (alterAt change path inner).map (table origin)
      | some (series latest earlier) => (alterAt change path latest).map (series · earlier)
      | some _ => none
    return Fields.set key entry fields

/-- enters the table of a header, which comes last from now on -/
def openTable (key : String) (fields : Fields) : Option Fields :=
  match fields.lookup key with
  | none => some (Fields.set key (table .header []) fields)
  | some (table .implied inner) =>
    some (Fields.set key (table .header inner) (Table.without key fields))
  | some _ => none

/-- enters the next table of a series -/
def openNext (key : String) (fields : Fields) : Option Fields :=
  match fields.lookup key with
  | none => some (Fields.set key (series [] []) fields)
  | some (series latest earlier) => some (Fields.set key (series [] (latest :: earlier)) fields)
  | some _ => none

/-! ## entries -/

/-- enters a value at the end of a dotted key; `isOpen` if a key may be added to the fields -/
def insertAt (isOpen : Bool) (key : String) (d : Draft) : List String → Fields → Option Fields
  | [], fields =>
    if isOpen && !(fields.lookup key).isSome then some (Fields.set key d fields) else none
  | next :: path, fields => do
    let entry ← match fields.lookup next with
      | none => (insertAt true key d path []).map (table .dotted)
      | some (table .header _) => none
      | some (table origin inner) =>
        (insertAt (origin == .dotted) key d path inner).map (table origin)
      | some (series latest earlier) =>
        (insertAt false key d path latest).map (series · earlier)
      | some _ => none
    return Fields.set next entry fields

/-- enters the value of a key into an open table -/
def insert (path : List String) (d : Draft) (fields : Fields) : Option Fields :=
  match path.getLast? with
  | some key => insertAt true key d path.dropLast fields
  | none => none

/-- the fields that entries make up -/
def ofEntries? (entries : List (List String × Draft)) : Option Fields :=
  entries.foldlM (fun fields e => insert e.1 e.2 fields) []

end Draft

end Relay.Toml
