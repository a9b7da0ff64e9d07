import Lifecycle.Promotion.Preview

/-!
# Commits of promotions

A commit applies submitted changes to the successor of a space. The ledger is read again first, and
what it says now about an id goes before what was submitted. Copies are written type by type, what
is referred to before what refers to it; then the policy; then copies are removed in the reverse
order of types. A fault ends the commit, and what was written stays written.
-/

namespace Lifecycle.Commit

/-! ### Copies -/

/-- The first copy of each entity with one more document, under its id if it has one. -/
def addCopy (copies : Table Hit) (hit : Hit) : Except Fault (Table Hit) := do
  match ← Content.entityId? hit.source with
  | none => pure copies
  | some id => pure (if copies.has id.display then copies else copies.put id.display hit)

def copies (type : EntityType) (ids : List String) (space : Space) (source : Json) :
    Work (Table Hit) := do
  let settings ← Work.settings
  let index := settings.indexFor type
  let query ← Resolver.within index space (Scope.terms "document.id" ids)
  Store.scan index { query, source, pageSize := settings.pageSize } [] addCopy

/-- The fields of the document in a body that is known to have one. -/
def documentOf (body : Table Json) : Table Json :=
  match Json.under body "document" with
  | .object fields => fields
  | _ => []

/-- The body of a copy in a space, made from that of its source: relabelled, with the hash of its
content. -/
def successorBody (source : Table Json) (target : Space) : Table Json :=
  let body := Content.relabelled source target.name
  body.put "hash" (.object [("sha256", .text (Content.hash (documentOf body) []))])

/-! ### Counts -/

abbrev Counts := Table Nat

def Counts.add (counts : Counts) (operation : Operation) : Counts :=
  Table.put counts operation.name ((Table.get? counts operation.name).getD 0 + 1)

/-! ### Writing -/

/-- The storage id of a copy: that of the copy that is there, else a new one. -/
def storageId (settings : ContentSettings) (existing : Table Hit) (target : Space) (id : String) :
    Except Fault String :=
  match existing.get? id with
  | some hit => .ok hit.id
  | none => settings.documentId target.name id

def sourceOf (sources : Table Hit) (id : String) : Table Json :=
  ((sources.get? id).map Hit.source).getD []

/-- Writes the copies of changed entities one after another and counts the operations. -/
def writeCopies (settings : ContentSettings) (type : EntityType) (target : Space)
    (sources existing : Table Hit) : List Change → Counts → Work Counts
  | [], counts => pure counts
  | change :: rest, counts => do
    let body := successorBody (sourceOf sources change.id) target
    let docId ← Work.ofExcept (storageId settings existing target change.id)
    Store.upsert (settings.indexFor type) docId body
    writeCopies settings type target sources existing rest (Counts.add counts change.operation)

/-- Brings the copies of added and updated entities of a type up to date. All sources must still be
there. -/
def write (type : EntityType) (changes : List Change) (space target : Space) : Work Counts := do
  let settings ← Work.settings
  let ids := changes.map Change.id
  let sources ← copies type ids space .null
  let missing := ids.filter fun id => !sources.has id
  if !missing.isEmpty then throw (.stale type.name missing)
  let existing ← copies type ids target (Json.texts ["document.id"])
  writeCopies settings type target sources existing changes []

/-! ### Removing -/

/-- Removes the copies of entities one after another and counts them. -/
def removeCopies (index : String) (existing : Table Hit) : List String → Nat → Work Nat
  | [], count => pure count
  | id :: rest, count => do
    match existing.get? id with
    | none => removeCopies index existing rest count
    | some hit => do
      Store.delete index hit.id
      removeCopies index existing rest (count + 1)

/-- Removes the copies of entities of a type that are there. -/
def remove (type : EntityType) (changes : List Change) (target : Space) : Work Nat := do
  let settings ← Work.settings
  let ids := changes.map Change.id
  let existing ← copies type ids target (Json.texts ["document.id"])
  removeCopies (settings.indexFor type) existing ids 0

/-! ### The policy -/

/-- The name of the step that promotes the policy. -/
def policyStep : String := "policy"

/-- The document that a policy is promoted as: it keeps the id of the policy it replaces. -/
def promotedDocument (source : Policy) (current : Option PolicyRecord) : Policy :=
  match current with
  | some record =>
    if record.document.id.isEmpty then source else { source with id := record.document.id }
  | none => source

/-- Promotes the policy of a space unless the successor has the same content, and says whether it
did. -/
def promotePolicy (space target : Space) : Work Bool := do
  match ← Policies.get? space with
  | none => throw (.stale policyStep [space.name])
  | some source => do
    let current ← Policies.get? target
    let same := current.any fun record =>
      record.document.contentHash == source.document.contentHash
    if same then return false
    let _ ← Policies.save target (promotedDocument source.document current) current (some source)
    return true

/-! ### The commit -/

structure Report where
  space : Space
  target : Space
  /-- The counts of the operations applied to each type of entity. -/
  applied : Table Counts := []
  policyUpdated : Bool := false
  deriving DecidableEq, Repr

def Report.toJson (report : Report) : Json :=
  .object
    [("space", .text report.space.name), ("target_space", .text report.target.name),
     ("applied", .object (report.applied.map fun entry =>
       (entry.1, .object (entry.2.map fun count => (count.1, .int count.2))))),
     ("policy_updated", .bool report.policyUpdated)]

/-- Counts of a type of entity added to those of a report. -/
def record (applied : Table Counts) (type : EntityType) (counts : Counts) : Table Counts :=
  applied.put type.name (Table.putAll ((applied.get? type.name).getD []) counts)

/-- A step of a commit. Any fault but that of a stale change is one of the step. -/
def step {α : Type} (name : String) (work : Work α) : Work α :=
  tryCatch work fun fault =>
    match fault with
    | .stale .. => throw fault
    | _ => throw (.step name fault)

/-- The planned changes of each type: the submitted ones, each with the operation that the ledger
gives it now. -/
def plan (submitted fresh : ChangeSet) (type : EntityType) : List Change :=
  Change.reconciled (submitted.of type) (fresh.of type)

/-- Writes the planned copies of some types in order. -/
def writeAll (plan : EntityType → List Change) (space target : Space) :
    List EntityType → Table Counts → Work (Table Counts)
  | [], applied => pure applied
  | type :: rest, applied => do
    let changes := Change.writes (plan type)
    if changes.isEmpty then writeAll plan space target rest applied
    else do
      let counts ← step type.name (write type changes space target)
      writeAll plan space target rest (record applied type counts)

/-- Removes the planned copies of some types in order. -/
def removeAll (plan : EntityType → List Change) (target : Space) :
    List EntityType → Table Counts → Work (Table Counts)
  | [], applied => pure applied
  | type :: rest, applied => do
    let changes := Change.removals (plan type)
    if changes.isEmpty then removeAll plan target rest applied
    else do
      let count ← step type.name (remove type changes target)
      removeAll plan target rest (record applied type [(Operation.remove.name, count)])

def execute (plan : EntityType → List Change) (withPolicy : Bool) (space target : Space) :
    Work Report := do
  let applied ← writeAll plan space target EntityType.writeOrder []
  let policyUpdated ←
    if withPolicy then step policyStep (promotePolicy space target) else pure false
  let applied ← removeAll plan target EntityType.writeOrder.reverse applied
  pure { space, target, applied, policyUpdated }

def promote (space : Space) (submitted : ChangeSet) : Work Report := do
  let target ← Work.ofExcept (Preview.successor space)
  Gate.ensure space
  let fresh ← Preview.changesOf space
  execute (plan submitted fresh) submitted.hasPolicyUpdate space target

end Lifecycle.Commit
