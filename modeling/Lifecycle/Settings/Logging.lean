import Lifecycle.Settings.Sources

/-!
# Settings of the log
-/

namespace Lifecycle

/-- The least level that is logged, and the form of a line. -/
structure LoggingSettings where
  level : String := "INFO"
  format : String := "%(asctime)s %(levelname)s [%(name)s] %(message)s"
  deriving DecidableEq, Repr

namespace LoggingSettings

def heading : String := "log_"

/-- The names of the settings and how their variables are read. -/
def names : List (String × Settings.Form) := [("level", .text), ("format", .text)]

def levels : List String :=
  ["CRITICAL", "FATAL", "ERROR", "WARN", "WARNING", "INFO", "DEBUG", "NOTSET"]

/-- A letter in upper case, as far as a letter of the names of levels can come of it: two letters
beyond ASCII have such an upper case, the dotless i and the long s. -/
def upperLetter (c : Char) : Char :=
  if c == '\u0131' then 'I' else if c == '\u017f' then 'S' else c.toUpper

/-- A level by its name in any casing, with blanks around it or not. -/
def checkLevel (s : String) : Checked String :=
  let level := String.ofList ((Text.trim s).toList.map upperLetter)
  if levels.contains level then .good level
  else .complain (.rejected ("Unknown log level: " ++ s))

def ofFields (fields : Table Json) : Checked LoggingSettings :=
  let defaults : LoggingSettings := {}
  LoggingSettings.mk
    <$> Check.optional fields "level" defaults.level
      (fun value => (Check.text value).andThen checkLevel)
    <*> Check.optional fields "format" defaults.format Check.text
    <* Check.onlyKeys fields (names.map (·.1))

def read (env : Settings.Environment) (overrides : Table Json) : Except Fault LoggingSettings := do
  let fields ← Settings.given env heading names overrides
  (ofFields fields).orMisfit "LoggingSettings"

def toJson (settings : LoggingSettings) : Json :=
  .object [("level", .text settings.level), ("format", .text settings.format)]

end LoggingSettings

end Lifecycle
