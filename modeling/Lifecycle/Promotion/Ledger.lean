import Lifecycle.Change
import Lifecycle.Policy.Stored

/-!
# Ledgers of changes

A ledger says what has changed in a space since it was last promoted. One ledger compares the
content hashes of the space and its successor; another one asks the content manager; a fixed change
set may stand in for both.
-/

namespace Lifecycle.Ledger

/-! ### Comparing contents -/

/-- The content hashes of entities with those of one more document, under its id if it has one. -/
def addHash (hashes : Table String) (hit : Hit) : Except Fault (Table String) := do
  let fields ← Content.documentFields hit.source
  match (Json.under fields "id").given? with
  | none => pure hashes
  | some id => pure (hashes.put id.display (Content.hash fields []))

/-- The content hashes of the entities of a type in a space. -/
def hashes (type : EntityType) (space : Space) : Work (Table String) := do
  let settings ← Work.settings
  let index := settings.indexFor type
  let query ← Resolver.within index space .null
  Store.scan index
    { query, source := Json.texts ["document"], pageSize := settings.pageSize } [] addHash

def entityChanges (type : EntityType) (space target : Space) : Work (List Change) := do
  let source ← hashes type space
  let successor ← hashes type target
  pure (Change.between source successor)

/-- The change of a policy, if its content is not that of the one in the successor space. -/
def policyChange (source : PolicyRecord) (target : Option PolicyRecord) : List Change :=
  match target with
  | some record =>
    if record.document.contentHash == source.document.contentHash then [] else [change]
  | none => [change]
where
  change : Change :=
    ⟨if source.document.id.isEmpty then source.docId else source.document.id, .update⟩

def policyChanges (space target : Space) : Work (List Change) := do
  match ← Policies.get? space with
  | none => pure []
  | some source => do
    let successor ← Policies.get? target
    pure (policyChange source successor)

def compared (space target : Space) : Work ChangeSet := do
  let policy ← policyChanges space target
  let integrations ← entityChanges .integrations space target
  let decoders ← entityChanges .decoders space target
  let kvdbs ← entityChanges .kvdbs space target
  let rules ← entityChanges .rules space target
  pure { policy, integrations, decoders, kvdbs, rules }

/-! ### Asking the content manager -/

def url (connection : Connection) : String :=
  Text.trimEnd '/' connection.url ++ "/" ++ Text.trimBoth '/' connection.contentManagerPath ++
    "/promote"

/-- The change set in an answer; an answer without changes has an empty one. -/
def changesIn (answer : Json) : Except Fault ChangeSet :=
  let changes := ((answer.get? "changes").bind Json.given?).getD (.object [])
  match ChangeSet.check .notModel changes with
  | .good found => .ok found
  | .bad details =>
    .error (.service ("Content manager returned malformed changes: " ++
      Fault.misfitHeading details.length "PromotionChangeSet"))

def replyChanges : Reply → Except Fault ChangeSet
  | .broken fault =>
    if fault.isTransport then
      .error (.service ("Content manager request failed: " ++ fault.message))
    else .error fault
  | .answer status body =>
    if status == 404 then .ok {}
    else if status != 200 then
      .error (.service
        ("Content manager returned status " ++ toString status ++ ": " ++ body))
    else
      match Json.read body with
      | .ok answer => changesIn answer
      | .error fault =>
        .error (.service ("Content manager returned an invalid body: " ++ fault.message))

def told (space : Space) : Work ChangeSet := do
  let connection := (← read).connection
  let reply ← Work.exchange
    { method := "GET"
      url := url connection
      params := .object [("space", .text space.name)]
      timeout := .float connection.timeoutSeconds
      session := some (connection.verifyCerts, connection.credentials?) }
  Work.ofExcept (replyChanges reply)

/-! ### The ledger of a deployment -/

/-- The changes of a space by the ledger of the deployment, with ids as the ledger has them. -/
def changes (space target : Space) : Work ChangeSet := do
  let deployment ← read
  match deployment.fixedChanges, deployment.settings.changeLedger with
  | some value, _ =>
    Work.ofExcept ((ChangeSet.check .notModel value).orMisfit "PromotionChangeSet")
  | none, .contentHash => compared space target
  | none, .contentManager => told space

end Lifecycle.Ledger
