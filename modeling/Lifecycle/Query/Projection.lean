import Lifecycle.Fault
import Lifecycle.Query.Matching

/-!
# Parts of a stored body

A reader may ask for some paths of a body instead of the whole. The parts found at the paths keep
their places; paths that lead nowhere are left out.
-/

namespace Lifecycle.Query

/-- A table with a value at a path, objects on the way made where there are none. -/
def place : Table Json → List String → Json → Table Json
  | t, [], _ => t
  | t, [key], value => t.put key value
  | t, key :: next :: rest, value =>
    let inner :=
      match t.get? key with
      | some (.object fields) => fields
      | _ => []
    t.put key (.object (place inner (next :: rest) value))

/-- A table with what a body has at a path. -/
def withPart (body part : Table Json) (path : List String) : Table Json :=
  match at? (.object body) path with
  | some value => place part path value
  | none => part

def partsAt (body : Table Json) (paths : List String) : Table Json :=
  paths.foldl (fun part path => withPart body part (Text.split '.' path)) []

/-- What to read of a body: null for everything, a list of paths, or an object that may have one
under `includes`. -/
def included : Json → Json
  | .object fields => Json.under fields "includes"
  | value => value

def paths : List Json → Except Fault (List String)
  | [] => .ok []
  | .text path :: rest => (paths rest).map (path :: ·)
  | value :: _ => .error (.noPart value "split")

/-- What a reader who asks for `source` gets of a body. -/
def projected (source : Json) (body : Table Json) : Except Fault (Table Json) :=
  match included source with
  | .null => .ok body
  | value => do
    let items ← itemsOf value
    let found ← paths items
    pure (partsAt body found)

end Lifecycle.Query
