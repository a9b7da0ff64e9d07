import Lifecycle.Promotion.Gate
import Lifecycle.Promotion.Ledger

/-!
# Previews of promotions

A preview shows the changes of a space in normal form with a display name for each entity. The name
comes from the space where the entity will be taken from, if it has one there, else from the other.
-/

namespace Lifecycle

/-- The changes of a space and the names of what is changed. -/
structure Preview where
  space : Space
  changes : ChangeSet
  names : EntityType → Table String

namespace Preview

def nothingToPromote (preview : Preview) : Bool := preview.changes.isEmpty

def textsJson (t : Table String) : Json := .object (t.map fun entry => (entry.1, .text entry.2))

def toJson (preview : Preview) : Json :=
  .object
    [("promote", (PromotionRequest.mk preview.space preview.changes).toJson),
     ("available_promotions",
      .object (EntityType.all.map fun type => (type.name, textsJson (preview.names type)))),
     ("nothing_to_promote", .bool preview.nothingToPromote)]

/-! ### Changes -/

def successor (space : Space) : Except Fault Space :=
  match space.target? with
  | some target => .ok target
  | none => .error (.notAllowed space.name Action.promote.name)

def changesOf (space : Space) : Work ChangeSet := do
  let target ← Work.ofExcept (successor space)
  let raw ← Ledger.changes space target
  pure raw.normalised

/-! ### Names -/

/-- The names of entities with that of one more document, if it has an id and a name. -/
def addName (key : String) (names : Table String) (hit : Hit) : Except Fault (Table String) := do
  let fields ← Content.documentFields hit.source
  match (Json.under fields "id").given?, (Json.under fields key).given? with
  | some id, some name => pure (names.put id.display name.display)
  | _, _ => pure names

def namesIn (type : EntityType) (ids : List String) (space : Space) : Work (Table String) := do
  let settings ← Work.settings
  let index := settings.indexFor type
  let query ← Resolver.within index space (Scope.terms "document.id" ids)
  Store.scan index
    { query
      source := Json.texts ["document.id", type.titlePath]
      pageSize := settings.pageSize } [] (addName type.titleKey)

def nameOf? (names : Table String) (id : String) : Option String :=
  (names.get? id).filter (!·.isEmpty)

/-- The name of a changed entity: what is added has its name in the source space, what is updated or
removed in the target space; the other space comes second and the id last. -/
def displayName (source target : Table String) (change : Change) : String :=
  let (preferred, other) := if change.operation == .add then (source, target) else (target, source)
  (nameOf? preferred change.id <|> nameOf? other change.id).getD change.id

/-- The names of changed entities of a type. No changes need no names. -/
def namesFor (type : EntityType) (changes : List Change) (space target : Space) :
    Work (Table String) := do
  if changes.isEmpty then return []
  let ids := changes.map Change.id
  let source ← namesIn type ids space
  let successor ← namesIn type ids target
  pure (Table.ofEntries (changes.map fun change =>
    (change.id, displayName source successor change)))

/-! ### The preview of a space -/

def ofSpace (space : Space) : Work Preview := do
  let target ← Work.ofExcept (successor space)
  let found ← changesOf space
  let integrations ← namesFor .integrations found.integrations space target
  let decoders ← namesFor .decoders found.decoders space target
  let kvdbs ← namesFor .kvdbs found.kvdbs space target
  let rules ← namesFor .rules found.rules space target
  pure
    { space
      changes := found
      names := fun
        | .integrations => integrations
        | .decoders => decoders
        | .kvdbs => kvdbs
        | .rules => rules }

end Preview

end Lifecycle
