import Lifecycle.Content.Assignment
import Lifecycle.Policy
import Lifecycle.Space.Resolver

/-!
# The stored policies of the spaces

The policy of a space is the first document of the policies index that belongs to the space. Saving
a policy writes the whole body: the document, its space in the shape the body already has, and the
hash of the content.
-/

namespace Lifecycle

structure PolicyRecord where
  docId : String
  space : Space
  document : Policy
  /-- The stored body. -/
  source : Table Json := []
  /-- The integrations of the policy, as far as they were asked for. -/
  integrationsMap : Table (Table Json) := []
  deriving DecidableEq, Repr

def PolicyRecord.toJson (record : PolicyRecord) : Json :=
  .object
    [("doc_id", .text record.docId), ("space", .text record.space.name),
     ("document", record.document.toJson),
     ("integrations_map",
      .object (record.integrationsMap.map fun entry => (entry.1, .object entry.2)))]

/-- A page of policies, and how many there are on all pages. -/
structure PolicyPage where
  total : Int
  items : List PolicyRecord
  deriving DecidableEq, Repr

def PolicyPage.toJson (page : PolicyPage) : Json :=
  .object [("total", .int page.total), ("items", .list (page.items.map PolicyRecord.toJson))]

/-! ### Stored bodies -/

namespace Content

/-- The document in a stored body, or the empty object where none counts as given. -/
def documentValue (body : Table Json) : Json :=
  ((Json.under body "document").given?).getD (.object [])

/-- The fields of the document in a stored body. -/
def documentFields (body : Table Json) : Except Fault (Table Json) :=
  match documentValue body with
  | .object fields => .ok fields
  | value => .error (.noPart value "get")

/-- The id of the document in a stored body, if it has one that counts as given. -/
def entityId? (body : Table Json) : Except Fault (Option Json) := do
  let fields ← documentFields body
  pure (Json.under fields "id").given?

end Content

namespace Policies

/-! ### Reading -/

/-- A document found as the policy of a space. -/
def toRecord (space : Space) (hit : Hit) : Except Fault PolicyRecord := do
  let document ← (Policy.check (Content.documentValue hit.source)).orMisfit "Policy"
  pure { docId := hit.id, space, document, source := hit.source }

/-- The first document that a search in the policies index finds, as the policy of a space. -/
def first? (space : Space) (query : Json) : Work (Option PolicyRecord) := do
  let index := (← Work.settings).policiesIndex
  let query ← Resolver.within index space query
  let page ← Store.search index { query, size := 1 }
  match page.hits with
  | [] => pure none
  | hit :: _ => do
    let record ← Work.ofExcept (toRecord space hit)
    pure (some record)

def get? (space : Space) : Work (Option PolicyRecord) := first? space .null

def idsQuery (ids : List String) : Json :=
  .object [("ids", .object [("values", Json.texts ids)])]

/-- The policy under a storage id, if it belongs to a space. -/
def byId? (id : String) (space : Space) : Work (Option PolicyRecord) :=
  first? space (idsQuery [id])

/-! ### Integrations of policies -/

/-- What is told about an integration: its storage id and what was read of its body. -/
def integrationEntry (hit : Hit) : Table Json := Table.putAll [("_id", .text hit.id)] hit.source

/-- The entries of integrations with one more, under its id if it has one. -/
def addIntegration (entries : List (Json × Table Json)) (hit : Hit) :
    Except Fault (List (Json × Table Json)) := do
  match ← Content.entityId? hit.source with
  | none => pure entries
  | some id =>
    match id with
    | .list _ | .object _ => throw (.mistyped ("unhashable type: '" ++ id.typeName ++ "'"))
    | _ => pure (entries ++ [(id, integrationEntry hit)])

/-- What to read of integrations: the wanted paths, and always the id. -/
def integrationSource (paths : Option (List String)) : Json :=
  match paths with
  | none => .null
  | some paths =>
    Json.texts (if paths.contains "document.id" then paths else paths ++ ["document.id"])

/-- The integrations of a space with some ids, each under the id of its document, in the order of
the index. -/
def integrationEntries (space : Space) (ids : List String) (paths : Option (List String)) :
    Work (List (Json × Table Json)) := do
  let ids := distinct ids
  if ids.isEmpty then return []
  let settings ← Work.settings
  let index := settings.integrationsIndex
  let query ← Resolver.within index space (Scope.terms "document.id" ids)
  Store.scan index
    { query, source := integrationSource paths, pageSize := settings.pageSize } []
    addIntegration

def entryOf? (entries : List (Json × Table Json)) (id : String) : Option (Table Json) :=
  (entries.reverse.find? fun entry => entry.1 == .text id).map (·.2)

/-- The text that an id stands under in an object. -/
def keyText : Json → String
  | .text s => s
  | id => id.render

/-- Entries as a table by the texts of their ids. -/
def entriesTable (entries : List (Json × Table Json)) : Table (Table Json) :=
  Table.ofEntries (entries.map fun entry => (keyText entry.1, entry.2))

/-- The integrations that a policy names, each with its entry or an empty one. -/
def attached (entries : List (Json × Table Json)) (document : Policy) : Table (Table Json) :=
  Table.ofEntries (document.integrations.map fun id => (id, (entryOf? entries id).getD []))

def searchSource : Json := .object [("includes", Json.texts ["document", "space"])]

/-- The policies that a query finds in a space, with the integrations they name. -/
def search (space : Space) (asked : Search) (paths : Option (List String)) : Work PolicyPage := do
  let index := (← Work.settings).policiesIndex
  let query ← Resolver.within index space asked.query
  let page ← Store.search index { asked with query, source := searchSource }
  let records ← Work.ofExcept (page.hits.mapM (toRecord space))
  let ids := records.flatMap fun record => record.document.integrations
  let entries ← integrationEntries space ids paths
  pure
    { total := page.total
      items := records.map fun record =>
        { record with integrationsMap := attached entries record.document } }

/-! ### Writing -/

/-- The body that a policy of a space is saved as, over an earlier body. -/
def savedBody (space : Space) (document : Policy) (base : Table Json) : Table Json :=
  (Content.relabelled (base.put "document" document.toJson) space.name).put "hash"
    (.object [("sha256", .text document.contentHash)])

/-- The part of the storage id of a new policy that names the policy. -/
def newId (document : Policy) : String := if document.id.isEmpty then "policy" else document.id

/-- The storage id and the earlier body for a policy of a space: those of the current one, else a
new id and the body that gives the shape. -/
def placeFor (settings : ContentSettings) (space : Space) (document : Policy)
    (current shape : Option PolicyRecord) : Except Fault (String × Table Json) :=
  match current with
  | some record => .ok (record.docId, record.source)
  | none => do
    let docId ← settings.documentId space.name (newId document)
    pure (docId, (shape.map PolicyRecord.source).getD [])

/-- Saves a policy of a space in place of the current one, or as a new document in the shape of
another one. -/
def save (space : Space) (document : Policy) (current shape : Option PolicyRecord) :
    Work PolicyRecord := do
  let settings ← Work.settings
  let time ← Work.now
  let document := { document with modified := some time.toText }
  let (docId, base) ← Work.ofExcept (placeFor settings space document current shape)
  let body := savedBody space document base
  Store.upsert settings.policiesIndex docId body
  pure { docId, space, document, source := body }

/-! ### Edits -/

/-- The policy of a space where an action is permitted. -/
def editable (space : Space) (action : Action) : Work PolicyRecord := do
  if !space.allows action then throw (.notAllowed space.name action.name)
  match ← get? space with
  | some record => pure record
  | none => throw (.policyNotFound space.name)

/-- Sets the integrations of the policy of a space in a wanted order. Integrations that are not in
the policy any more are dropped from the order, and those it does not name keep theirs behind it. -/
def reorder (space : Space) (wanted : List String) : Work PolicyRecord := do
  let record ← editable space .rearrangeIntegrations
  let order := mergedOrder wanted record.document.integrations
  save space { record.document with integrations := order } (some record) none

/-- Sets the descriptive fields of the policy of a space that an update gives. -/
def update (space : Space) (update : PolicyUpdate) : Work PolicyRecord := do
  let record ← editable space .edit
  save space (update.apply record.document) (some record) none

end Policies

end Lifecycle
