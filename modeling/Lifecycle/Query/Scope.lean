import Lifecycle.Json.Writer
import Lifecycle.Query.Matching

/-!
# Scoping a query to a space

A document belongs to a space when one of some fields holds the name of the space. `Scope.filter`
is the query for that; `Scope.apply` adds it to the filters of another query, whose scoring clauses
stay as they are.
-/

namespace Lifecycle.Scope

def everything : Json := .object [("match_all", .object [])]

/-- The query for a field that holds a text. -/
def term (field value : String) : Json := .object [("term", .object [(field, .text value)])]

/-- The query for a field that holds one of some texts. -/
def terms (field : String) (values : List String) : Json :=
  .object [("terms", .object [(field, Json.texts values)])]

/-- The query for the documents of a space, which may be named in any of some fields. -/
def filter (space : String) (fields : List String) : Json :=
  .object [("bool", .object
    [("should", .list (fields.map fun field => term field space)),
     ("minimum_should_match", .int 1)])]

/-- The filters a compound query has already: a list of them, or a single one that counts as given.
-/
def filtersOf (clauses : Table Json) : List Json :=
  match clauses.get? "filter" with
  | some (.list filters) => filters
  | some value => value.given?.toList
  | none => []

/-- The clauses of a compound query with one more filter. -/
def narrowed (clauses : Table Json) (added : Json) : Json :=
  .object [("bool", .object
    ((clauses.remove "filter").put "filter" (.list (filtersOf clauses ++ [added]))))]

/-- The clause that the value at a position of a list of clauses is: a key with what stands under
it. -/
def pairClause (position : Nat) (pair : Json) : Except Fault (String × Json) :=
  match Query.itemsOf pair with
  | .ok [.text key, value] => .ok (key, value)
  | .ok [.list _, _] => .error (.mistyped "unhashable type: 'list'")
  | .ok [.object _, _] => .error (.mistyped "unhashable type: 'dict'")
  | .ok [key, value] => .ok (key.render, value)
  | .ok items =>
    .error (.refused ("dictionary update sequence element #" ++ toString position ++
      " has length " ++ toString items.length ++ "; 2 is required"))
  | .error _ =>
    .error (.mistyped ("cannot convert dictionary update sequence element #" ++
      toString position ++ " to a sequence"))

/-- The clauses of a compound query: an object, or a list of pairs. -/
def clauses : Json → Except Fault (Table Json)
  | .object fields => .ok fields
  | value => do
    let pairs ← Query.itemsOf value
    let entries ← pairs.zipIdx.mapM fun (pair, position) => pairClause position pair
    pure (Table.ofEntries entries)

/-- A query that counts as given together with a filter. -/
def combined (query added : Json) : Except Fault Json :=
  match query.get? "bool" with
  | some compound => (clauses compound).map fun found => narrowed found added
  | none => .ok (.object [("bool", .object [("must", .list [query]), ("filter", .list [added])])])

/-- A query, null for everything, scoped to a space that may be named in any of some fields. Without
a space the query stays as it is. -/
def apply (query : Json) (space : Option String) (fields : List String) : Except Fault Json :=
  match space with
  | none | some "" => .ok (if query.truthy then query else everything)
  | some name =>
    if query.truthy then combined query (filter name fields)
    else .ok (.object [("bool", .object [("filter", .list [filter name fields])])])

end Lifecycle.Scope
