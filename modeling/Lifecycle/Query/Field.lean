import Lifecycle.Json
import Lifecycle.Text.Split

/-!
# Fields of a stored body

A field is named by a path, keys with points between them. The mapping of an index gives the type
of each field that can be searched; a field of type `keyword` under the name of another one with
`.keyword` behind it reads the value of that other one.
-/

namespace Lifecycle

abbrev Mapping := Table String

namespace Query

def at? : Json → List String → Option Json
  | value, [] => some value
  | .object fields, key :: rest =>
    match Table.get? fields key with
    | some value => at? value rest
    | none => none
  | _, _ :: _ => none

/-- The ending of the name of a field that reads the value of another one. -/
def keywordEnding : List Char := ".keyword".toList

/-- The name of the field whose value a field reads. -/
def readName (mapping : Mapping) (field : String) : String :=
  let name := field.toList
  if keywordEnding.isSuffixOf name && mapping.get? field == some "keyword" then
    String.ofList (name.take (name.length - keywordEnding.length))
  else field

def valueAt? (mapping : Mapping) (body : Table Json) (field : String) : Option Json :=
  at? (.object body) (Text.split '.' (readName mapping field))

/-- Whether a field can be searched by its value. -/
def searchable (mapping : Mapping) (field : String) : Bool :=
  match mapping.get? field with
  | none => false
  | some type => type != "object" && type != "nested"

/-- Whether a stored value is an expected one, or a list that has it. -/
def holdsValue (stored expected : Json) : Bool :=
  match stored with
  | .list items => items.any (expected.same ·)
  | _ => stored.same expected

end Query

end Lifecycle
