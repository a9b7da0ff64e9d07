import Lifecycle.Query.Ordering
import Lifecycle.Query.Projection

/-!
# The document store in memory

An index keeps documents by storage id in the order in which their ids were first written, and a
mapping that says which fields can be searched. A search goes through the documents of an index in
that order; all searches are functions of the contents, all writes functions on them.
-/

namespace Lifecycle

/-! ### What a search gives -/

/-- A document found: its storage id and what was asked for of its body. -/
structure Hit where
  id : String
  source : Table Json
  deriving DecidableEq, Repr

/-- A page of documents found, and how many there are on all pages. -/
structure Page where
  total : Int
  hits : List Hit
  deriving DecidableEq, Repr

/-- A search. `query` is null for everything, `sort` for the order of the index, `source` for whole
bodies. -/
structure Search where
  query : Json := .null
  sort : Json := .null
  first : Int := 0
  size : Int := 25
  source : Json := .null
  deriving DecidableEq, Repr

/-! ### Contents -/

abbrev Documents := Table (Table Json)

/-- Mappings and documents by the names of the indexes. -/
structure Memory where
  mappings : Table Mapping := []
  indexes : Table Documents := []
  deriving DecidableEq, Repr

namespace Memory

/-- The mapping of an index that is made without one. -/
def defaultMapping : Mapping :=
  [("space", "object"), ("space.name", "text"), ("space.name.keyword", "keyword"),
   ("document", "object"), ("document.id", "keyword"), ("document.name", "keyword"),
   ("document.title", "keyword"), ("document.decoders", "keyword"),
   ("document.kvdbs", "keyword"), ("document.rules", "keyword"),
   ("document.integrations", "keyword"), ("document.root_decoder", "keyword")]

/-- The documents of an index; an index that is not there has none. -/
def documents (memory : Memory) (index : String) : Documents := (memory.indexes.get? index).getD []

/-- The mapping of an index; an index that is not there has no fields. -/
def mapping (memory : Memory) (index : String) : Mapping := (memory.mappings.get? index).getD []

/-! ### Writing -/

/-- The contents with an index that has a mapping; documents that were there stay. -/
def createIndex (memory : Memory) (index : String) (mapping : Option Mapping) : Memory :=
  { mappings := memory.mappings.put index (mapping.getD defaultMapping)
    indexes := memory.indexes.put index (memory.documents index) }

/-- The contents with an index that is there, made by default. -/
def ensureIndex (memory : Memory) (index : String) : Memory :=
  if memory.mappings.has index then memory else memory.createIndex index none

def put (memory : Memory) (index id : String) (body : Table Json) : Memory :=
  let memory := memory.ensureIndex index
  { memory with indexes := memory.indexes.put index ((memory.documents index).put id body) }

def delete (memory : Memory) (index id : String) : Memory :=
  if memory.indexes.has index then
    { memory with indexes := memory.indexes.put index ((memory.documents index).remove id) }
  else memory

/-! ### Reading -/

/-- The documents of an index that a query finds, in the order of the index. -/
def found (memory : Memory) (index : String) (query : Json) : Except Fault (List Query.Entry) :=
  (memory.documents index).filterM fun entry =>
    Query.holds ⟨memory.mapping index, entry.1, entry.2⟩ false query

def search (memory : Memory) (index : String) (search : Search) : Except Fault Page := do
  let matched ← memory.found index search.query
  let ordered ← Query.ordered search.sort matched
  let page := Query.slice ordered search.first (search.first + search.size)
  let hits ← page.mapM fun entry => do
    let source ← Query.projected search.source entry.2
    pure (Hit.mk entry.1 source)
  pure ⟨matched.length, hits⟩

/-- The documents with some storage ids, in the order of the ids. -/
def byIds (memory : Memory) (index : String) (ids : List String) : List Hit :=
  ids.filterMap fun id => ((memory.documents index).get? id).map (Hit.mk id)

/-- What can be done with a field of a type. -/
def capability (type : String) : Json :=
  .object [(type, .object
    [("searchable", .bool (type != "object" && type != "nested")),
     ("aggregatable", .bool (type == "keyword"))])]

/-- What can be done with those of some fields that an index has. -/
def fieldCapabilities (memory : Memory) (index : String) (fields : List String) :
    Except Fault Json :=
  match memory.mappings.get? index with
  | none => .error (.store ("no such index [" ++ index ++ "]") (some 404))
  | some mapping =>
    .ok (.object (Table.ofEntries (fields.filterMap fun field =>
      (mapping.get? field).map fun type => (field, capability type))))

end Memory

end Lifecycle
