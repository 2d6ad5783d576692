import Relay.Path

/-!
# Where settings are kept

Unless a path is given, settings are read from a directory of the user's own.
-/

namespace Relay.Settings.Home

def user (home : Option String) (standIn : String) : String :=
  match home with
  | some home => if home = "" then standIn else home
  | none => standIn

/-- the directory of the process in the home of the user -/
def directory (user : String) : String := Path.join user ".conduit"

/-- the file with the settings -/
def file (user : String) : String := Path.join (directory user) "config.toml"

end Relay.Settings.Home
