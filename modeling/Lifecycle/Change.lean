import Lifecycle.Schema
import Lifecycle.Space
import Lifecycle.Text.Word

/-!
# Changes between a space and its successor

A change is an id with the operation that brings the successor up to date; a change set has a list
of changes for the policy and for each type of entity. This module says how changes are read, how
raw ids are normalised, how submitted changes are reconciled with fresh ones, and which changes
lead from the contents of one space to those of another.
-/

namespace Lifecycle

/-! ### Operations -/

/-- What happens to an entity in the successor space. -/
inductive Operation where
  | add
  | update
  | remove
  deriving DecidableEq, Repr

namespace Operation

def all : List Operation := [.add, .update, .remove]

def name : Operation → String
  | .add => "add"
  | .update => "update"
  | .remove => "remove"

def ofName? (s : String) : Option Operation := all.find? fun operation => operation.name == s

/-- An operation by its exact name; in any casing and with blanks around it, `delete` is another
name of `remove`. -/
def check : Json → Checked Operation
  | .text s =>
    if Text.lower (Text.trim s) == "delete" then .good .remove
    else
      match ofName? s with
      | some operation => .good operation
      | none => .complain .notMember
  | _ => .complain .notMember

end Operation

/-! ### Changes -/

/-- An id and what happens to the entity it names. -/
structure Change where
  id : String
  operation : Operation
  deriving DecidableEq, Repr

namespace Change

def toJson (change : Change) : Json :=
  .object [("id", .text change.id), ("operation", .text change.operation.name)]

/-- An object with a text `id` and an `operation`. -/
def check (otherwise : Complaint) : Json → Checked Change :=
  Check.fieldsOf otherwise fun fields =>
    Change.mk <$> Check.required fields "id" Check.text
      <*> Check.required fields "operation" Operation.check

/-! ### Normal form -/

/-- An id without the type tag it may start with, a letter or digit and a low line. -/
def stripTag (id : String) : String :=
  match id.toList with
  | c :: '_' :: rest => if Text.isWord c then String.ofList rest else id
  | _ => id

def untagged (change : Change) : Change := { change with id := stripTag change.id }

/-- The changes whose id is not empty and was not seen before. -/
def firstOfEach : List String → List Change → List Change
  | _, [] => []
  | seen, change :: rest =>
    if change.id.isEmpty || seen.contains change.id then firstOfEach seen rest
    else change :: firstOfEach (change.id :: seen) rest

/-- The changes by ids without tags, the first of each id. -/
def normalised (changes : List Change) : List Change := firstOfEach [] (changes.map untagged)

/-! ### Reconciliation -/

/-- The operation that a list of changes gives each id; the last one counts. -/
def operations (changes : List Change) : Table Operation :=
  Table.ofEntries (changes.map fun change => (change.id, change.operation))

/-- Submitted changes in normal form, each with the operation that fresh changes give its id, or
with its own if they give none. -/
def reconciled (submitted fresh : List Change) : List Change :=
  (normalised submitted).map fun change =>
    { change with operation := ((operations fresh).get? change.id).getD change.operation }

def writes (changes : List Change) : List Change :=
  changes.filter fun change => change.operation != .remove

def removals (changes : List Change) : List Change :=
  changes.filter fun change => change.operation == .remove

/-! ### Difference of two spaces -/

/-- The change an entity of the source space needs, given the hashes in the target space. -/
def needed? (target : Table String) (id hash : String) : Option Change :=
  match target.get? id with
  | none => some ⟨id, .add⟩
  | some other => if other != hash then some ⟨id, .update⟩ else none

/-- The changes that lead from the entities of a target space to those of a source space, each given
by its id and the hash of its content. -/
def between (source target : Table String) : List Change :=
  (source.filterMap fun entry => needed? target entry.1 entry.2) ++
    ((target.filter fun entry => !source.has entry.1).map fun entry => ⟨entry.1, .remove⟩)

end Change

/-! ### Change sets -/

/-- The changes of a space, for the policy and for each type of entity. -/
structure ChangeSet where
  policy : List Change := []
  integrations : List Change := []
  decoders : List Change := []
  kvdbs : List Change := []
  rules : List Change := []
  deriving DecidableEq, Repr

namespace ChangeSet

def of (changes : ChangeSet) : EntityType → List Change
  | .integrations => changes.integrations
  | .decoders => changes.decoders
  | .kvdbs => changes.kvdbs
  | .rules => changes.rules

/-- The change set with these changes of the policy and of each type. -/
def build (policy : List Change) (entities : EntityType → List Change) : ChangeSet :=
  { policy
    integrations := entities .integrations
    decoders := entities .decoders
    kvdbs := entities .kvdbs
    rules := entities .rules }

def isEmpty (changes : ChangeSet) : Bool := EntityType.all.all fun type => (changes.of type).isEmpty

/-- Whether the policy of the successor needs an update. -/
def hasPolicyUpdate (changes : ChangeSet) : Bool := !changes.policy.isEmpty

def normalised (changes : ChangeSet) : ChangeSet :=
  build (Change.normalised changes.policy) fun type => Change.normalised (changes.of type)

def toJson (changes : ChangeSet) : Json :=
  .object
    [("policy", .list (changes.policy.map Change.toJson)),
     ("integrations", .list (changes.integrations.map Change.toJson)),
     ("decoders", .list (changes.decoders.map Change.toJson)),
     ("kvdbs", .list (changes.kvdbs.map Change.toJson)),
     ("rules", .list (changes.rules.map Change.toJson))]

/-- An object with lists of changes; `otherwise` is the complaint about what is no object. -/
def check (otherwise : Complaint) : Json → Checked ChangeSet :=
  Check.fieldsOf otherwise fun fields =>
    let list (key : String) := Check.optional fields key [] (Check.listOf (Change.check otherwise))
    ChangeSet.mk <$> list "policy" <*> list "integrations" <*> list "decoders" <*> list "kvdbs"
      <*> list "rules"

end ChangeSet

/-! ### Requests -/

/-- A request to promote changes out of a space. -/
structure PromotionRequest where
  space : Space
  changes : ChangeSet
  deriving DecidableEq, Repr

def Space.check : Json → Checked Space
  | .text s =>
    match Space.ofText? s with
    | some space => .good space
    | none => .complain (.rejected ("Unknown space: " ++ Text.quoted s))
  | _ => .complain .notMember

namespace PromotionRequest

/-- An object with a `space` and perhaps `changes`. -/
def check (otherwise : Complaint) : Json → Checked PromotionRequest :=
  Check.fieldsOf otherwise fun fields =>
    PromotionRequest.mk <$> Check.required fields "space" Space.check
      <*> Check.optional fields "changes" {} (ChangeSet.check otherwise)

def toJson (request : PromotionRequest) : Json :=
  .object [("space", .text request.space.name), ("changes", request.changes.toJson)]

end PromotionRequest

end Lifecycle
