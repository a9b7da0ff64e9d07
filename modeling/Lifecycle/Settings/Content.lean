import Lifecycle.Settings.Sources
import Lifecycle.Space

/-!
# Settings of the content

Which indexes hold the content, which fields may name the space of a document, how the storage id of
a copy is made, how many documents are read at a time, and who keeps the ledger of changes.
-/

namespace Lifecycle

/-- Who says what has changed between a space and its successor. -/
inductive LedgerKind where
  /-- The contents of the two spaces are compared. -/
  | contentHash
  /-- The content manager is asked. -/
  | contentManager
  deriving DecidableEq, Repr

namespace LedgerKind

def name : LedgerKind → String
  | .contentHash => "content_hash"
  | .contentManager => "content_manager"

def check : Json → Checked LedgerKind
  | .text "content_hash" => .good .contentHash
  | .text "content_manager" => .good .contentManager
  | _ => .complain .notLiteral

end LedgerKind

structure ContentSettings where
  integrationsIndex : String := ".cti-integrations"
  decodersIndex : String := ".cti-decoders"
  kvdbsIndex : String := ".cti-kvdbs"
  rulesIndex : String := ".cti-rules"
  policiesIndex : String := ".cti-policies"
  /-- The paths of the fields that may name the space of a document, in the order of use. -/
  spaceFieldCandidates : List String :=
    ["space.keyword", "space", "space.name.keyword", "space.name", "document.space.keyword",
     "document.space", "document.space.name.keyword", "document.space.name"]
  /-- The template of the storage id of a copy. -/
  documentIdTemplate : String := "\x7bspace\x7d:\x7bentity_id\x7d"
  pageSize : Int := 500
  changeLedger : LedgerKind := .contentHash
  deriving DecidableEq, Repr

namespace ContentSettings

/-! ### Reading -/

def heading : String := "content_manager_"

/-- The names of the settings and how their variables are read. -/
def names : List (String × Settings.Form) :=
  [("integrations_index", .text), ("decoders_index", .text), ("kvdbs_index", .text),
   ("rules_index", .text), ("policies_index", .text), ("space_field_candidates", .json),
   ("document_id_template", .text), ("page_size", .text), ("change_ledger", .text)]

/-- Candidate fields without blanks around them, each once; at least one must be left. -/
def checkCandidates (candidates : List String) : Checked (List String) :=
  match ((candidates.map Text.trim).filter (!·.isEmpty)).eraseDups with
  | [] => .complain (.rejected "CONTENT_MANAGER_SPACE_FIELD_CANDIDATES must not be empty.")
  | cleaned => .good cleaned

/-- A template whose named fields are exactly the space and the id of the entity. -/
def checkTemplate (template : String) : Checked String :=
  match Text.Template.names template with
  | .error fault => .complain (.rejected (Fault.ofTemplate fault).message)
  | .ok found =>
    if found.all ["space", "entity_id"].contains && ["space", "entity_id"].all found.contains then
      .good template
    else
      .complain (.rejected ("CONTENT_MANAGER_DOCUMENT_ID_TEMPLATE must contain only " ++
        "\x7bspace\x7d and \x7bentity_id\x7d."))

def checkPageSize (value : Json) : Checked Int :=
  (Check.int value).andThen fun n => (Check.above 0 n).andThen (Check.atMost 10000)

def ofFields (fields : Table Json) : Checked ContentSettings :=
  let defaults : ContentSettings := {}
  let text (key : String) (default : String) := Check.optional fields key default Check.text
  ContentSettings.mk
    <$> text "integrations_index" defaults.integrationsIndex
    <*> text "decoders_index" defaults.decodersIndex
    <*> text "kvdbs_index" defaults.kvdbsIndex
    <*> text "rules_index" defaults.rulesIndex
    <*> text "policies_index" defaults.policiesIndex
    <*> Check.optional fields "space_field_candidates" defaults.spaceFieldCandidates
      (fun value => (Check.listOf Check.text value).andThen checkCandidates)
    <*> Check.optional fields "document_id_template" defaults.documentIdTemplate
      (fun value => (Check.text value).andThen checkTemplate)
    <*> Check.optional fields "page_size" defaults.pageSize checkPageSize
    <*> Check.optional fields "change_ledger" defaults.changeLedger LedgerKind.check
    <* Check.onlyKeys fields (names.map (·.1))

def read (env : Settings.Environment) (overrides : Table Json) : Except Fault ContentSettings := do
  let fields ← Settings.given env heading names overrides
  (ofFields fields).orMisfit "ContentManagerSettings"

/-! ### Use -/

/-- The index that holds the entities of a type. -/
def indexFor (settings : ContentSettings) : EntityType → String
  | .integrations => settings.integrationsIndex
  | .decoders => settings.decodersIndex
  | .kvdbs => settings.kvdbsIndex
  | .rules => settings.rulesIndex

/-- The storage id of the copy of an entity in a space. -/
def documentId (settings : ContentSettings) (space id : String) : Except Fault String :=
  (Text.Template.render settings.documentIdTemplate [("space", space), ("entity_id", id)]).mapError
    Fault.ofTemplate

def toJson (settings : ContentSettings) : Json :=
  .object
    [("integrations_index", .text settings.integrationsIndex),
     ("decoders_index", .text settings.decodersIndex),
     ("kvdbs_index", .text settings.kvdbsIndex),
     ("rules_index", .text settings.rulesIndex),
     ("policies_index", .text settings.policiesIndex),
     ("space_field_candidates", Json.texts settings.spaceFieldCandidates),
     ("document_id_template", .text settings.documentIdTemplate),
     ("page_size", .int settings.pageSize),
     ("change_ledger", .text settings.changeLedger.name)]

end ContentSettings

end Lifecycle
