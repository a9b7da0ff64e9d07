import Lifecycle.Query.Scope
import Lifecycle.Store.Access

/-!
# Resolving the space fields of an index

An index is probed once for its space fields; what was found is kept. A probe that fails counts as
one that tells nothing, so that every index has space fields and every query can be scoped.
-/

namespace Lifecycle.Resolver

/-- The space fields by the outcome of a probe. -/
def ofOutcome (candidates : List String) : Except Fault Json → SpaceFields
  | .ok answer => SpaceFields.ofAnswer candidates answer
  | .error _ => SpaceFields.fallback candidates

/-- The space fields of an index, if they are resolved. -/
def cached? (index : String) : Work (Option SpaceFields) := do
  let world ← get
  pure (world.spaceFields.get? index)

/-- The space fields of an index by a probe. -/
def probe (index : String) : Work SpaceFields := do
  let settings ← Work.settings
  let outcome ← Work.attempt (Store.fieldCapabilities index settings.spaceFieldCandidates)
  let fields := ofOutcome settings.spaceFieldCandidates outcome
  modify fun world => { world with spaceFields := world.spaceFields.put index fields }
  pure fields

def resolve (index : String) : Work SpaceFields := do
  match ← cached? index with
  | some fields => pure fields
  | none => probe index

/-- A query, null for everything, scoped to a space in an index. -/
def scopedQuery (index : String) (space : Option String) (query : Json) : Work Json := do
  match space with
  | none | some "" => Work.ofExcept (Scope.apply query none [])
  | some name => do
    let fields ← resolve index
    Work.ofExcept (Scope.apply query (some name) fields.search)

/-- A query scoped to one of the lifecycle spaces. -/
def within (index : String) (space : Space) (query : Json) : Work Json :=
  scopedQuery index (some space.name) query

end Lifecycle.Resolver
