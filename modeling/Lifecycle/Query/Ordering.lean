import Lifecycle.Json.Display
import Lifecycle.Query.Matching

/-!
# The order of the documents found

A sort is a list of clauses, the most significant first. Each orders the documents that have a
field by the text of its value and puts those without it behind them. Documents that a clause does
not tell apart keep their order, also when it is descending.
-/

namespace Lifecycle.Query

abbrev Entry := String × Table Json

/-- The clauses of a sort; one that counts as not given has none. -/
def sortClauses (sort : Json) : Except Fault (List Json) :=
  if !sort.truthy then .ok []
  else
    match sort with
    | .list _ | .object _ | .text _ => itemsOf sort
    | value => .error (.mistyped ("'" ++ value.typeName ++ "' object is not reversible"))

/-- Whether the options of a clause ask for descending order. -/
def isDescending (options : Json) : Except Fault Bool :=
  if !options.truthy then .ok false
  else
    match options with
    | .object fields => .ok ((Json.under fields "order") == .text "desc")
    | value => .error (.noPart value "get")

/-- The text that a document is ordered by, if it has the field. -/
def sortKey? (field : String) (entry : Entry) : Option String :=
  (valueAt? [] entry.2 field).map Json.display

/-- Whether a document may stand before another one, by the texts they are ordered by. -/
def inOrder (descending : Bool) (a b : String × Entry) : Bool :=
  if descending then b.1 ≤ a.1 else a.1 ≤ b.1

def orderedBy (field : String) (descending : Bool) (entries : List Entry) : List Entry :=
  let keyed := entries.filterMap fun entry => (sortKey? field entry).map fun key => (key, entry)
  (keyed.mergeSort (inOrder descending)).map (·.2) ++
    entries.filter fun entry => (sortKey? field entry).isNone

/-- Documents ordered by a clause. The field `_doc` stands for the order they have. -/
def orderedByClause (clause : Json) (entries : List Entry) : Except Fault (List Entry) := do
  let (field, options) ← soleField false clause
  if field == "_doc" then return entries
  let descending ← isDescending options
  return orderedBy field descending entries

/-- Documents in the order of a sort: ordered by its clauses from the last to the first. -/
def ordered (sort : Json) (entries : List Entry) : Except Fault (List Entry) := do
  let clauses ← sortClauses sort
  clauses.reverse.foldlM (fun entries clause => orderedByClause clause entries) entries

/-! ### Pages -/

/-- A position in a list of a length; a negative one counts from the end. -/
def position (length : Nat) (n : Int) : Nat :=
  if n < 0 then (n + length).toNat else min n.toNat length

def slice {α : Type} (items : List α) (first last : Int) : List α :=
  let start := position items.length first
  (items.drop start).take (position items.length last - start)

end Lifecycle.Query
