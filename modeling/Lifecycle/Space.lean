import Lifecycle.Json.Display
import Lifecycle.Text.Blank
import Lifecycle.Text.LowerCase

/-!
# Lifecycle spaces

Content is written in the space `draft`, promoted to `test` and from there to `custom`; `standard`
holds what was delivered. This module says which spaces there are, what may be done in each, which
space comes after which, and how a space is named in text.
-/

namespace Lifecycle

/-! ### Spaces -/

inductive Space where
  | draft
  | test
  | custom
  | standard
  deriving DecidableEq, Repr

namespace Space

/-- All spaces in lifecycle order. -/
def all : List Space := [.draft, .test, .custom, .standard]

def name : Space → String
  | .draft => "draft"
  | .test => "test"
  | .custom => "custom"
  | .standard => "standard"

def ofName? (s : String) : Option Space := all.find? fun space => space.name == s

/-- The space a text names: blanks around the name and upper case do not matter, and `testing` is an
old name of `test`. -/
def ofText? (s : String) : Option Space :=
  let label := Text.lower (Text.trim s)
  if label == "testing" then some .test else ofName? label

def ofJson? (value : Json) : Option Space := ofText? value.display

/-- The space that content of a space is promoted to. -/
def next? : Space → Option Space
  | .draft => some .test
  | .test => some .custom
  | .custom => none
  | .standard => none

end Space

/-! ### Actions -/

inductive Action where
  | create
  | edit
  | delete
  | promote
  | defineRootDecoder
  | rearrangeIntegrations
  deriving DecidableEq, Repr

namespace Action

def all : List Action :=
  [.create, .defineRootDecoder, .delete, .edit, .promote, .rearrangeIntegrations]

def name : Action → String
  | .create => "create"
  | .edit => "edit"
  | .delete => "delete"
  | .promote => "promote"
  | .defineRootDecoder => "define_root_decoder"
  | .rearrangeIntegrations => "rearrange_integrations"

def ofName? (s : String) : Option Action := all.find? fun action => action.name == s

end Action

namespace Space

/-- Everything may be done in `draft`, `test` may only be promoted, the others are read only. -/
def allows : Space → Action → Bool
  | .draft, _ => true
  | .test, action => action == .promote
  | .custom, _ => false
  | .standard, _ => false

/-- The actions allowed in a space, in the order of their names. -/
def allowedActions (space : Space) : List Action := Action.all.filter space.allows

/-- The spaces where an action is allowed, in lifecycle order. -/
def allowing (action : Action) : List Space := all.filter fun space => space.allows action

/-- The successor of a space that may be promoted. -/
def target? (space : Space) : Option Space :=
  if space.allows .promote then space.next? else none

/-- The spaces that can be promoted, in lifecycle order. -/
def promotable : List Space := all.filter fun space => space.target?.isSome

end Space

/-! ### Entities -/

inductive EntityType where
  | integrations
  | decoders
  | kvdbs
  | rules
  deriving DecidableEq, Repr

namespace EntityType

/-- All types in the order in which they are listed. -/
def all : List EntityType := [.integrations, .decoders, .kvdbs, .rules]

theorem mem_all (type : EntityType) : type ∈ all := by
  cases type <;> decide

/-- The types in the order in which they are written: what is referred to comes before what refers
to it. -/
def writeOrder : List EntityType := [.kvdbs, .decoders, .rules, .integrations]

def name : EntityType → String
  | .integrations => "integrations"
  | .decoders => "decoders"
  | .kvdbs => "kvdbs"
  | .rules => "rules"

def ofName? (s : String) : Option EntityType := all.find? fun type => type.name == s

/-- The key of a document that holds the display name. -/
def titleKey : EntityType → String
  | .decoders => "name"
  | _ => "title"

/-- The path of the display name in a stored body. -/
def titlePath (type : EntityType) : String := "document." ++ type.titleKey

end EntityType

end Lifecycle
