import Lifecycle.Fault
import Lifecycle.Text.LowerCase

/-!
# Where settings come from

A setting is given by an override, else by an environment variable, else it has a default.
Variables are named by a heading and the name of the setting, in any casing. They hold text, but a
setting that is a list is written as JSON.
-/

namespace Lifecycle.Settings

/-- The variables of an environment by their names in lower case; the last of equal names counts. -/
abbrev Environment := Table String

def environment (pairs : Table String) : Environment :=
  Table.ofEntries (pairs.map fun entry => (Text.lower entry.1, entry.2))

inductive Form where
  | text
  | json
  deriving DecidableEq, Repr

/-- The value that a variable gives a setting, if it gives one; null in JSON gives none. -/
def fromVariable? (env : Environment) (heading name : String) (form : Form) :
    Except Fault (Option Json) :=
  match env.get? (heading ++ name), form with
  | none, _ => .ok none
  | some s, .text => .ok (some (.text s))
  | some s, .json =>
    match Json.read s with
    | .ok .null => .ok none
    | .ok value => .ok (some value)
    | .error _ => .error (.badVariable name)

/-- The values that are given for the settings under a heading, overrides and variables together. -/
def given (env : Environment) (heading : String) (names : List (String × Form))
    (overrides : Table Json) : Except Fault (Table Json) := do
  let found ← names.mapM fun entry => do
    let value ← fromVariable? env heading entry.1 entry.2
    pure (value.map fun value => (entry.1, value))
  pure (Table.putAll (found.filterMap id) overrides)

end Lifecycle.Settings
