import Lifecycle.Fault
import Lifecycle.Query.Matching
import Lifecycle.Query.Scope
import Lifecycle.Text.Split

/-!
# What the console makes of a preview

A preview comes from the service as a value. The summary shows what would change in words; the
selection is what is sent back to be promoted, all of the changes or those of some types. Values
that have not the shape of a preview are faults where they are looked into.
-/

namespace Lifecycle.Console

/-! ### Lists of texts -/

/-- The texts that a value lists: the items of a list in words, or the parts of a text between
commas without blanks around them. Blank ones are dropped. -/
def toList : Json → List String
  | .list items => (items.map Json.display).filter fun s => !(Text.trim s).isEmpty
  | .text s => ((Text.split ',' s).map Text.trim).filter (!·.isEmpty)
  | _ => []

/-! ### Parts of values -/

/-- The value under a key of an object, null if there is none. -/
def part (value : Json) (key : String) : Except Fault Json :=
  match value with
  | .object fields => .ok (Json.under fields key)
  | _ => .error (.noPart value "get")

/-- The value under a key of an object, or the empty object for one that does not count as given. -/
def partOrEmpty (value : Json) (key : String) : Except Fault Json :=
  (part value key).map fun found => found.given?.getD (.object [])

/-- The value under a key that must be there. -/
def member (value : Json) (key : String) : Except Fault Json :=
  match value with
  | .object fields =>
    match Table.get? fields key with
    | some found => .ok found
    | none => .error (.absentKey key)
  | .text _ => .error (.mistyped "string indices must be integers, not 'str'")
  | .list _ => .error (.mistyped "list indices must be integers or slices, not str")
  | _ => .error (.mistyped ("'" ++ value.typeName ++ "' object is not subscriptable"))

/-- The fields of an object that is gone through. -/
def fieldsOf (value : Json) : Except Fault (Table Json) :=
  match value with
  | .object fields => .ok fields
  | _ => .error (.noPart value "items")

/-! ### The summary -/

/-- The name of an id among some names, or the id itself. -/
def nameAmong (names : Table Json) (id : Json) : Except Fault Json :=
  match id with
  | .text s => .ok ((names.get? s).getD id)
  | .list _ | .object _ => .error (.mistyped ("unhashable type: '" ++ id.typeName ++ "'"))
  | _ => .ok id

/-- A change in words: the operation and the name. -/
def changeText (names change : Json) : Except Fault Json := do
  let operation ← member change "operation"
  match names with
  | .object fields => do
    let id ← member change "id"
    let name ← nameAmong fields id
    pure (.text (operation.display ++ " " ++ name.display))
  | _ => .error (.noPart names "get")

def typeSummary (names : Json) (type : String) (changes : Json) : Except Fault Json := do
  let typeNames ← partOrEmpty names type
  let items ← Query.itemsOf changes
  let texts ← items.mapM (changeText typeNames)
  pure (.list texts)

/-- The summary of a preview: the space, whether there is something to promote, and the changes of
each type in words. -/
def summary (preview : Json) : Except Fault Json := do
  let promote ← partOrEmpty preview "promote"
  let changes ← partOrEmpty promote "changes"
  let names ← partOrEmpty preview "available_promotions"
  let space ← part promote "space"
  let nothing ← part preview "nothing_to_promote"
  let policy ← part changes "policy"
  let fields ← fieldsOf changes
  let listed := fields.filter fun field => field.1 != "policy" && field.2.truthy
  let entities ← listed.mapM fun field => do
    let texts ← typeSummary names field.1 field.2
    pure (field.1, texts)
  pure (.object
    [("space", space), ("nothing_to_promote", .bool nothing.truthy),
     ("policy_update", .bool policy.truthy), ("entities", .object entities)])

/-! ### The selection -/

/-- The changes to promote: all of them, or those of some types and none of the others. -/
def selectedChanges (changes : Table Json) (only : List String) : Table Json :=
  if only.isEmpty then changes
  else changes.map fun field => (field.1, if only.contains field.1 then field.2 else .list [])

/-- What is sent to be promoted of a preview. -/
def selection (preview : Json) (only : List String) : Except Fault Json := do
  let promote ← partOrEmpty preview "promote"
  let found ← partOrEmpty promote "changes"
  let changes ← Scope.clauses found
  let space ← part promote "space"
  pure (.object [("space", space), ("changes", .object (selectedChanges changes only))])

end Lifecycle.Console
