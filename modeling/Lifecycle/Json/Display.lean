import Lifecycle.Json
import Lifecycle.Number.Shortest
import Lifecycle.Text.Quoted

/-!
# The text of a value in a message

An id that is not a text, or a value shown in an error message, is written in words: `None`,
`True`, `False`, numbers in their shortest form, lists in brackets, objects in braces, texts in
quotes. A text that stands alone is written without quotes.
-/

namespace Lifecycle.Json

def floatText (x : Binary64) : String := String.ofList (Shortest.standard.write x)

/-- The texts put next to each other with `, ` between them. -/
def commaSeparated (parts : List String) : String := String.intercalate ", " parts

mutual

def nested : Json → String
  | .null => "None"
  | .bool b => if b then "True" else "False"
  | .int n => toString n
  | .float x => floatText x
  | .text s => Text.quoted s
  | .list items => "[" ++ commaSeparated (nestedItems items) ++ "]"
  | .object fields => "\x7b" ++ commaSeparated (nestedFields fields) ++ "\x7d"
termination_by structural value => value

def nestedItems : List Json → List String
  | [] => []
  | item :: rest => nested item :: nestedItems rest
termination_by structural items => items

def nestedFields : List (String × Json) → List String
  | [] => []
  | field :: rest => nestedField field :: nestedFields rest
termination_by structural fields => fields

def nestedField : String × Json → String
  | (key, value) => Text.quoted key ++ ": " ++ nested value
termination_by structural field => field

end

def display : Json → String
  | .text s => s
  | value => nested value

end Lifecycle.Json
