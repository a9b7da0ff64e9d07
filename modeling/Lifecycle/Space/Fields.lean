import Lifecycle.Schema

/-!
# The fields that carry the space of a document

Indexes name the space of a document in different fields. Some candidate fields are probed for what
an index can do with them; those it can search are used to scope queries. Where the probe tells
nothing of use, all candidates are used.
-/

namespace Lifecycle

/-- The fields of an index that carry the space, for searching and for aggregating. -/
structure SpaceFields where
  search : List String := []
  aggregate : List String := []
  deriving DecidableEq, Repr

namespace SpaceFields

def toJson (fields : SpaceFields) : Json :=
  .object [("search_fields", Json.texts fields.search), ("agg_fields", Json.texts fields.aggregate)]

def check (otherwise : Complaint) : Json → Checked SpaceFields :=
  Check.fieldsOf otherwise fun fields =>
    SpaceFields.mk
      <$> Check.optional fields "search_fields" [] (Check.listOf Check.text)
      <*> Check.optional fields "agg_fields" [] (Check.listOf Check.text)

def fallback (candidates : List String) : SpaceFields := ⟨candidates, candidates⟩

/-! ### Reading the answer of a probe -/

/-- The types of fields that hold other fields and no value of their own. -/
def compositeTypes : List String := ["object", "nested"]

/-- An object, or the empty one for a value that does not count as given. -/
def tableOf? (value : Json) : Option (Table Json) :=
  if value.truthy then value.fields? else some []

/-- Whether one of some descriptions has a mark; none if one that is looked at is no object. -/
def someMarked? (mark : String) : List Json → Option Bool
  | [] => some false
  | description :: rest => do
    let fields ← tableOf? description
    if (Json.under fields mark).truthy then some true else someMarked? mark rest

/-- The descriptions of a field as a type with values of its own. -/
def concrete? (answer : Table Json) (field : String) : Option (List Json) := do
  let types ← tableOf? (Json.under answer field)
  pure ((types.filter fun entry => !compositeTypes.contains entry.1).map (·.2))

/-- Whether a field can be searched and aggregated by the answer of a probe. -/
def usable? (answer : Table Json) (field : String) : Option (Bool × Bool) := do
  let descriptions ← concrete? answer field
  let searchable ← someMarked? "searchable" descriptions
  let aggregatable ← someMarked? "aggregatable" descriptions
  pure (searchable, aggregatable)

/-- The candidates that are marked, or all of them if none is. -/
def markedOrAll (candidates : List String) (marked : List Bool) : List String :=
  match ((candidates.zip marked).filter (·.2)).map (·.1) with
  | [] => candidates
  | found => found

/-- The fields by the answer of a probe; none if the answer has not the shape it should have. -/
def ofAnswer? (candidates : List String) (answer : Json) : Option SpaceFields := do
  let fields ← answer.fields?
  let uses ← candidates.mapM (usable? fields)
  pure ⟨markedOrAll candidates (uses.map (·.1)), markedOrAll candidates (uses.map (·.2))⟩

/-- The fields by the answer of a probe, all candidates if it is of no use. -/
def ofAnswer (candidates : List String) (answer : Json) : SpaceFields :=
  (ofAnswer? candidates answer).getD (fallback candidates)

end SpaceFields

end Lifecycle
