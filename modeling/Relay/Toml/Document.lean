import Relay.Toml.Statement

/-!
# TOML texts

`Toml.parse?` reads a TOML text: its statements are taken in one after the other, each below the
header before it.
-/

namespace Relay.Toml

/-- the statements taken in so far -/
structure Taken where
  fields : Draft.Fields := []
  /-- the path of the last header -/
  path : List String := []

namespace Taken

/-- changes the parent of the table at a path, which is the last header from now on -/
def enter (t : Taken) (path : List String)
    (change : String → Draft.Fields → Option Draft.Fields) : Option Taken := do
  let key ← path.getLast?
  return { fields := ← Draft.alterAt (change key) path.dropLast t.fields, path }

/-- takes in a statement -/
def take (t : Taken) : Statement → Option Taken
  | .header path => t.enter path Draft.openTable
  | .seriesHeader path => t.enter path Draft.openNext
  | .entry path d => do
    return { t with fields := ← Draft.alterAt (Draft.insert path d) t.path t.fields }

end Taken

/-- the value of a TOML text, nearly always a table -/
def parse? (text : String) : Option Toml := do
  let statements ← Statement.ofText? text
  let taken ← statements.foldlM Taken.take {}
  Draft.tableToml? taken.fields

end Relay.Toml
