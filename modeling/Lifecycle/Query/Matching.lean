import Lifecycle.Fault
import Lifecycle.Query.Field
import Lifecycle.Text.Glob
import Lifecycle.Text.LowerCase

/-!
# Which documents a query finds

A query is an object with one clause: `match_all`, `term`, `terms`, `ids`, `wildcard`, or `bool`
with lists of queries under `must`, `filter` and `should`. `Query.holds` decides whether a document
is found.

Clauses are looked at from left to right and no further than needed, so that what is wrong with a
query is noticed only where it is reached: a query that is no object, or a clause that has not the
shape it should have, is a fault.
-/

namespace Lifecycle.Query

/-- A stored document that a query is applied to, with the mapping of its index. -/
structure Subject where
  mapping : Mapping
  id : String
  body : Table Json

/-! ### Shapes -/

/-- The fault of a clause that names no field. `inner` tells a query within another one from the
outermost one. -/
def emptyClause (inner : Bool) : Fault :=
  .failed (if inner then "generator raised StopIteration" else "coroutine raised StopIteration")

/-- The field that a clause names, with what is said about it. -/
def soleField (inner : Bool) : Json → Except Fault (String × Json)
  | .object (field :: _) => .ok field
  | .object [] => .error (emptyClause inner)
  | value => .error (.noPart value "items")

/-- The values that a value is gone through by: the items of a list, the keys of an object, the
characters of a text. -/
def itemsOf : Json → Except Fault (List Json)
  | .list items => .ok items
  | .object fields => .ok (fields.map fun field => .text field.1)
  | .text s => .ok (s.toList.map fun c => .text c.toString)
  | value => .error (.notIterable value)

def containsText (part : List Char) : List Char → Bool
  | [] => part.isEmpty
  | c :: rest => part.isPrefixOf (c :: rest) || containsText part rest

/-- Whether a value has a text: a list as an item, an object as a key, a text as a part. -/
def has (value : Json) (s : String) : Except Fault Bool :=
  match value with
  | .list items => .ok (items.any ((Json.text s).same ·))
  | .object fields => .ok (Table.has fields s)
  | .text whole => .ok (containsText s.toList whole.toList)
  | _ => .error (.notContainer value)

/-! ### Simple clauses -/

/-- A `term` clause: a field holds a value. -/
def termHolds (d : Subject) (inner : Bool) (clause : Json) : Except Fault Bool := do
  let (field, expected) ← soleField inner clause
  let expected :=
    match expected with
    | .object fields => Json.under fields "value"
    | value => value
  if !searchable d.mapping field then return false
  match valueAt? d.mapping d.body field with
  | some stored => return holdsValue stored expected
  | none => return false

/-- A `terms` clause: a field holds one of some values. -/
def termsHold (d : Subject) (inner : Bool) (clause : Json) : Except Fault Bool := do
  let (field, values) ← soleField inner clause
  if !searchable d.mapping field then return false
  let expected ← itemsOf values
  match valueAt? d.mapping d.body field with
  | some stored => return expected.any (holdsValue stored ·)
  | none => return false

/-- An `ids` clause: the storage id is one of some. -/
def idsHold (d : Subject) (clause : Json) : Except Fault Bool :=
  match clause with
  | .object fields => has ((Table.get? fields "values").getD (.list [])) d.id
  | value => .error (.noPart value "get")

/-- The fault of a pattern that is no text. -/
def patternFault (pattern : Json) : Fault :=
  match pattern with
  | .list _ | .object _ => .mistyped ("unhashable type: '" ++ pattern.typeName ++ "'")
  | _ => .mistyped ("object of type '" ++ pattern.typeName ++ "' has no len()")

/-- Whether a text matches the pattern of a `wildcard` clause. -/
def wildcardMatches (stored : String) (spec : Json) : Except Fault Bool :=
  match spec with
  | .object fields =>
    let folded := (Json.under fields "case_insensitive").truthy
    match (Table.get? fields "value").getD (.text ""), folded with
    | .text pattern, true =>
      .ok (Text.Glob.matchesText (Text.lower pattern) (Text.lower stored))
    | .text pattern, false => .ok (Text.Glob.matchesText pattern stored)
    | pattern, true => .error (.noPart pattern "lower")
    | pattern, false => .error (patternFault pattern)
  | value => .error (.noPart value "get")

/-- A `wildcard` clause: a text matches a pattern. -/
def wildcardHolds (d : Subject) (inner : Bool) (clause : Json) : Except Fault Bool := do
  let (field, spec) ← soleField inner clause
  match valueAt? d.mapping d.body field with
  | some (.text stored) => wildcardMatches stored spec
  | _ => return false

/-! ### Queries that are no objects -/

/-- The clauses a query may have that look at the document. -/
def clauseNames : List String := ["term", "terms", "ids", "wildcard", "bool"]

/-- The fault of a query without a known clause. -/
def unsupported (query : Json) : Except Fault Bool := .error (.unsupportedQuery query)

/-- What is found by a query that is no object. One that counts as not given finds everything. -/
def plainHolds (query : Json) : Except Fault Bool := do
  if !query.truthy then return true
  if ← has query "match_all" then return true
  let named ← clauseNames.anyM (has query)
  match query with
  | .text _ =>
    if named then .error (.mistyped "string indices must be integers, not 'str'")
    else unsupported query
  | _ =>
    if named then .error (.mistyped "list indices must be integers or slices, not str")
    else unsupported query

/-! ### Compound queries -/

/-- Whether a number of matches reaches a wanted number. -/
def reaches (count : Nat) (minimum : Json) : Except Fault Bool :=
  match minimum with
  | .int n => .ok ((count : Int) ≥ n)
  | .bool b => .ok (count ≥ (if b then 1 else 0))
  | .float x => .ok (x.atMost count)
  | value =>
    .error (.mistyped
      ("'>=' not supported between instances of 'int' and '" ++ value.typeName ++ "'"))

/-- Checks that the lists of a compound query can be gone through. -/
def checkLists (clauses : Table Json) : Except Fault Unit := do
  let _ ← itemsOf ((clauses.get? "must").getD (.list []))
  let _ ← itemsOf ((clauses.get? "filter").getD (.list []))

/-- Whether all queries that are no objects find a document. -/
def allPlain : List Json → Except Fault Bool
  | [] => .ok true
  | query :: rest => do if ← plainHolds query then allPlain rest else pure false

/-- How many queries that are no objects find a document. -/
def countPlain : List Json → Except Fault Nat
  | [] => .ok 0
  | query :: rest => do
    let found ← plainHolds query
    let more ← countPlain rest
    pure (if found then more + 1 else more)

mutual

def holds (d : Subject) (inner : Bool) : Json → Except Fault Bool
  | .object fields =>
    if fields.isEmpty || Table.has fields "match_all" then .ok true
    else if Table.has fields "term" then
      termHolds d inner (Json.under fields "term")
    else if Table.has fields "terms" then
      termsHold d inner (Json.under fields "terms")
    else if Table.has fields "ids" then idsHold d (Json.under fields "ids")
    else if Table.has fields "wildcard" then
      wildcardHolds d inner (Json.under fields "wildcard")
    else if Table.has fields "bool" then compoundAmong d fields
    else unsupported (.object fields)
  | .null => plainHolds .null
  | .bool b => plainHolds (.bool b)
  | .int n => plainHolds (.int n)
  | .float x => plainHolds (.float x)
  | .text s => plainHolds (.text s)
  | .list items => plainHolds (.list items)
termination_by structural query => query

/-- Whether the compound query among the clauses of a query finds a document. -/
def compoundAmong (d : Subject) : List (String × Json) → Except Fault Bool
  | [] => .ok true
  | entry :: rest => if entry.1 == "bool" then compoundHolds d entry else compoundAmong d rest
termination_by structural clauses => clauses

/-- Whether a compound query finds a document: all of `must` and `filter` do, and enough of `should`
if there is any. -/
def compoundHolds (d : Subject) : String × Json → Except Fault Bool
  | (_, compound) => clausesHold d compound
termination_by structural entry => entry

/-- Whether the clauses of a compound query find a document. -/
def clausesHold (d : Subject) : Json → Except Fault Bool
  | .object clauses => do
    checkLists clauses
    if !(← allAmong d "must" clauses) then return false
    if !(← allAmong d "filter" clauses) then return false
    if !(Json.under clauses "should").truthy then return true
    let count ← countAmong d "should" clauses
    reaches count ((Table.get? clauses "minimum_should_match").getD (.int 1))
  | .null => .error (.noPart .null "get")
  | .bool b => .error (.noPart (.bool b) "get")
  | .int n => .error (.noPart (.int n) "get")
  | .float x => .error (.noPart (.float x) "get")
  | .text s => .error (.noPart (.text s) "get")
  | .list items => .error (.noPart (.list items) "get")
termination_by structural compound => compound

/-- Whether all queries under a key find a document. -/
def allAmong (d : Subject) (key : String) : List (String × Json) → Except Fault Bool
  | [] => .ok true
  | entry :: rest => if entry.1 == key then allUnder d entry else allAmong d key rest
termination_by structural clauses => clauses

/-- Whether all queries of an entry find a document. -/
def allUnder (d : Subject) : String × Json → Except Fault Bool
  | (_, value) => allIn d value
termination_by structural entry => entry

/-- Whether all queries that a value is gone through by find a document. -/
def allIn (d : Subject) : Json → Except Fault Bool
  | .list queries => allHold d queries
  | .object fields => allPlain (fields.map fun field => .text field.1)
  | .text s => allPlain (s.toList.map fun c => .text c.toString)
  | .null => .error (.notIterable .null)
  | .bool b => .error (.notIterable (.bool b))
  | .int n => .error (.notIterable (.int n))
  | .float x => .error (.notIterable (.float x))
termination_by structural value => value

def allHold (d : Subject) : List Json → Except Fault Bool
  | [] => .ok true
  | query :: rest => do if ← holds d true query then allHold d rest else pure false
termination_by structural queries => queries

/-- How many queries under a key find a document. -/
def countAmong (d : Subject) (key : String) : List (String × Json) → Except Fault Nat
  | [] => .ok 0
  | entry :: rest => if entry.1 == key then countUnder d entry else countAmong d key rest
termination_by structural clauses => clauses

/-- How many queries of an entry find a document. -/
def countUnder (d : Subject) : String × Json → Except Fault Nat
  | (_, value) => countIn d value
termination_by structural entry => entry

/-- How many queries that a value is gone through by find a document. -/
def countIn (d : Subject) : Json → Except Fault Nat
  | .list queries => countHolding d queries
  | .object fields => countPlain (fields.map fun field => .text field.1)
  | .text s => countPlain (s.toList.map fun c => .text c.toString)
  | .null => .error (.notIterable .null)
  | .bool b => .error (.notIterable (.bool b))
  | .int n => .error (.notIterable (.int n))
  | .float x => .error (.notIterable (.float x))
termination_by structural value => value

def countHolding (d : Subject) : List Json → Except Fault Nat
  | [] => .ok 0
  | query :: rest => do
    let found ← holds d true query
    let more ← countHolding d rest
    pure (if found then more + 1 else more)
termination_by structural queries => queries

end

end Lifecycle.Query
