import Lifecycle.Promotion.Gate

/-!
# The catalog of a space

The catalog lists the entities of a type in a space. Entities that integrations refer to come with
the titles of the integrations of the same space that do.
-/

namespace Lifecycle.Catalog

/-- An entity and the titles of the integrations that refer to it. -/
structure Item where
  docId : String
  document : Table Json
  integrations : List Json := []
  deriving DecidableEq, Repr

/-- A page of entities, and how many there are on all pages. -/
structure Page where
  total : Int
  items : List Item
  deriving DecidableEq, Repr

def Page.toJson (page : Page) : Json :=
  .object
    [("total", .int page.total),
     ("items", .list (page.items.map fun item =>
       .object
         [("doc_id", .text item.docId), ("document", .object item.document),
          ("integrations", .list item.integrations)]))]

def toItem (hit : Hit) : Except Fault Item :=
  match Content.documentValue hit.source with
  | .object document => .ok { docId := hit.id, document }
  | _ => .error (.misfit "CatalogItem" [⟨.notObject, [.field "document"]⟩])

/-! ### References -/

def idsOf (items : List Item) : List String :=
  items.filterMap fun item => ((Json.under item.document "id").given?).map Json.display

/-- Titles by id with a title more under an id, if it is one of the wanted ones. -/
def addTitle (wanted : List String) (title : Json) (titles : Table (List Json)) (id : Json) :
    Except Fault (Table (List Json)) :=
  match id with
  | .list _ | .object _ => .error (.mistyped ("unhashable type: '" ++ id.typeName ++ "'"))
  | .text s =>
    .ok (if wanted.contains s then titles.put s ((titles.get? s).getD [] ++ [title]) else titles)
  | _ => .ok titles

/-- Titles by id with those of an integration under all ids it refers to. -/
def addTitles (type : EntityType) (wanted : List String) (titles : Table (List Json)) (hit : Hit) :
    Except Fault (Table (List Json)) := do
  let fields ← Content.documentFields hit.source
  let title := ((Json.under fields "title").given?).getD (.text hit.id)
  let references := Json.under fields type.name
  let ids ← if references.truthy then Query.itemsOf references else pure []
  ids.foldlM (addTitle wanted title) titles

/-- The titles of the integrations of a space that refer to entities of a type, by id. -/
def referringTitles (type : EntityType) (space : Space) (ids : List String) :
    Work (Table (List Json)) := do
  if ids.isEmpty then return []
  let settings ← Work.settings
  let index := settings.integrationsIndex
  let field := "document." ++ type.name
  let query ← Resolver.within index space (Scope.terms field ids)
  Store.scan index
    { query, source := Json.texts ["document.title", field], pageSize := settings.pageSize } []
    (addTitles type ids)

def withTitles (titles : Table (List Json)) (item : Item) : Item :=
  { item with integrations := (titles.get? (Json.under item.document "id").display).getD [] }

/-! ### Listing -/

/-- The entities of a type in a space that a search finds, sorted by display name if the search does
not sort. -/
def search (type : EntityType) (space : Space) (asked : Search) : Work Page := do
  let index := (← Work.settings).indexFor type
  let query ← Resolver.within index space asked.query
  let sort := if asked.sort.truthy then asked.sort else Gate.sortBy type.titlePath
  let page ← Store.search index { asked with query, sort }
  let items ← Work.ofExcept (page.hits.mapM toItem)
  if type == .integrations || items.isEmpty then return ⟨page.total, items⟩
  let titles ← referringTitles type space (idsOf items)
  return ⟨page.total, items.map (withTitles titles)⟩

end Lifecycle.Catalog
