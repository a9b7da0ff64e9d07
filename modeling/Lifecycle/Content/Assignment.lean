import Lifecycle.Json

/-!
# The space a stored body is assigned to

A body names its space under `space`, or in its document under `document.space`, as a plain value or
as an object with a `name`. Relabelling keeps the place and the shape and changes the name; a body
that names no space gets one under `space`.
-/

namespace Lifecycle.Content

/-- A space label with a new name: an object keeps its other keys, anything else is replaced. -/
def labelled (label : Json) (space : String) : Json :=
  match label with
  | .object fields => .object (Table.put fields "name" (.text space))
  | _ => .text space

/-- A table with the label under its key `space` renamed, if there is one. -/
def relabelledField (fields : Table Json) (space : String) : Table Json :=
  match fields.get? "space" with
  | some label => fields.put "space" (labelled label space)
  | none => fields

/-- Whether a body names its space in its document. -/
def assignedWithin (body : Table Json) : Bool :=
  match body.get? "document" with
  | some (.object document) => Table.has document "space"
  | _ => false

/-- Whether a body names its space at one of the two places. -/
def isAssigned (body : Table Json) : Bool := body.has "space" || assignedWithin body

/-- A body with the label in its document renamed, if there is one. -/
def relabelledWithin (body : Table Json) (space : String) : Table Json :=
  match body.get? "document" with
  | some (.object document) =>
    if Table.has document "space" then
      body.put "document" (.object (relabelledField document space))
    else body
  | _ => body

def relabelled (body : Table Json) (space : String) : Table Json :=
  if isAssigned body then relabelledWithin (relabelledField body space) space
  else body.put "space" (.object [("name", .text space)])

end Lifecycle.Content
