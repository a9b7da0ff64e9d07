import Lifecycle.Catalog
import Lifecycle.Promotion.Commit
import Lifecycle.Service.Envelope

/-!
# The operations behind the HTTP interface

Each operation takes what a client sends, spaces and types by their names, and gives a value. A name
that names nothing is a fault like any other.
-/

namespace Lifecycle.Endpoint

/-! ### Names -/

def space (name : String) : Except Fault Space :=
  match Space.ofText? name with
  | some space => .ok space
  | none => .error (.unknownSpace (.text name))

def entityType (name : String) : Except Fault EntityType :=
  match EntityType.ofName? name with
  | some type => .ok type
  | none => .error (.unknownName "EntityType" name)

/-! ### Spaces and promotions -/

def describe (space : Space) : Json :=
  .object
    [("space", .text space.name), ("next_space", Json.ofText? (space.next?.map Space.name)),
     ("allowed_actions", Json.texts (space.allowedActions.map Action.name))]

/-- All spaces, what comes next and what may be done. -/
def spaces : Json := .list (Space.all.map describe)

def preview (name : String) : Work Json := do
  let space ← Work.ofExcept (space name)
  let _ ← Work.ofExcept (Preview.successor space)
  Gate.ensure space
  let found ← Preview.ofSpace space
  pure found.toJson

def promote (request : PromotionRequest) : Work Json := do
  let report ← Commit.promote request.space request.changes
  pure report.toJson

/-! ### Policies -/

def policies (name : String) (first size : Int) : Work Json := do
  let space ← Work.ofExcept (space name)
  let page ← Policies.search space { first, size } none
  pure page.toJson

def policy (name : String) : Work Json := do
  let space ← Work.ofExcept (space name)
  match ← Policies.get? space with
  | some record => pure record.toJson
  | none => throw (.policyNotFound space.name)

def updatePolicy (name : String) (update : PolicyUpdate) : Work Json := do
  let space ← Work.ofExcept (space name)
  let record ← Policies.update space update
  pure record.toJson

/-- A new order of the integrations of the policy of a space. -/
def reorder (name : String) (request : ReorderRequest) : Work Json := do
  let space ← Work.ofExcept (space name)
  let record ← Policies.reorder space request.integrations
  pure record.toJson

/-! ### Root decoders -/

def rootDecoder (name : String) : Work Json := do
  let space ← Work.ofExcept (space name)
  let requirement ← Gate.check space
  pure requirement.toJson

/-- A new root decoder for the policy of a space. -/
def setRootDecoder (name : String) (update : RootDecoderUpdate) : Work Json := do
  let space ← Work.ofExcept (space name)
  let record ← Gate.assign space update.rootDecoder
  pure record.toJson

/-- The decoders of a space that can be chosen as root decoder. -/
def candidates (name : String) (text : Option String) (first size : Int) : Work Json := do
  let space ← Work.ofExcept (space name)
  let page ← Gate.candidates space text first size
  pure page.toJson

/-! ### Content -/

def content (typeName name : String) (first size : Int) : Work Json := do
  let type ← Work.ofExcept (entityType typeName)
  let space ← Work.ofExcept (space name)
  let page ← Catalog.search type space { first, size }
  pure page.toJson

end Lifecycle.Endpoint
