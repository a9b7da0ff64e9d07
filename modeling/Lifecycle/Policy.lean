import Lifecycle.Content.Hash
import Lifecycle.Schema

/-!
# Policies

A space has one policy document. Its known fields are typed, everything else in it is kept as it is.
The requests that edit a policy stand beside it, each with the edit it asks for.
-/

namespace Lifecycle

/-! ### The document -/

structure Policy where
  id : String := ""
  title : String := ""
  description : String := ""
  author : String := ""
  documentation : String := ""
  references : List String := []
  rootDecoder : String := ""
  integrations : List String := []
  date : Option String := none
  modified : Option String := none
  /-- The fields that are not known. -/
  extra : Table Json := []
  deriving DecidableEq, Repr

namespace Policy

def knownKeys : List String :=
  ["id", "title", "description", "author", "documentation", "references", "root_decoder",
   "integrations", "date", "modified"]

/-- The fields of the document, the known ones first. -/
def fields (policy : Policy) : Table Json :=
  [("id", .text policy.id), ("title", .text policy.title),
   ("description", .text policy.description), ("author", .text policy.author),
   ("documentation", .text policy.documentation), ("references", Json.texts policy.references),
   ("root_decoder", .text policy.rootDecoder), ("integrations", Json.texts policy.integrations),
   ("date", Json.ofText? policy.date), ("modified", Json.ofText? policy.modified)] ++ policy.extra

def toJson (policy : Policy) : Json := .object policy.fields

def ofFields (fields : Table Json) : Checked Policy :=
  let text (key : String) := Check.optional fields key "" Check.text
  let texts (key : String) := Check.optional fields key [] (Check.listOf Check.text)
  let time (key : String) := Check.optional fields key none Check.text?
  Policy.mk <$> text "id" <*> text "title" <*> text "description" <*> text "author"
    <*> text "documentation" <*> texts "references" <*> text "root_decoder"
    <*> texts "integrations" <*> time "date" <*> time "modified"
    <*> pure (fields.without knownKeys)

def check : Json → Checked Policy := Check.fieldsOf .notModel ofFields

/-- The hash of everything in the document but its id. -/
def contentHash (policy : Policy) : String := Content.hash policy.fields ["id"]

end Policy

/-! ### Edits -/

/-- New values for the descriptive fields of a policy; what is not given stays. -/
structure PolicyUpdate where
  title : Option String := none
  description : Option String := none
  author : Option String := none
  documentation : Option String := none
  references : Option (List String) := none
  deriving DecidableEq, Repr

namespace PolicyUpdate

def check (otherwise : Complaint) : Json → Checked PolicyUpdate :=
  Check.fieldsOf otherwise fun fields =>
    let text (key : String) := Check.optional fields key none Check.text?
    PolicyUpdate.mk <$> text "title" <*> text "description" <*> text "author"
      <*> text "documentation"
      <*> Check.optional fields "references" none (Check.listOf? Check.text)

def apply (update : PolicyUpdate) (policy : Policy) : Policy :=
  { policy with
    title := update.title.getD policy.title
    description := update.description.getD policy.description
    author := update.author.getD policy.author
    documentation := update.documentation.getD policy.documentation
    references := update.references.getD policy.references }

/-- All fields of an update, null for what is not given. -/
def fields (update : PolicyUpdate) : Table Json :=
  [("title", Json.ofText? update.title), ("description", Json.ofText? update.description),
   ("author", Json.ofText? update.author),
   ("documentation", Json.ofText? update.documentation),
   ("references", (update.references.map Json.texts).getD .null)]

def givenFields (update : PolicyUpdate) : Table Json :=
  update.fields.filter fun field => field.2 != .null

end PolicyUpdate

structure ReorderRequest where
  integrations : List String := []
  deriving DecidableEq, Repr

/-- An object with a list of `integrations`. -/
def ReorderRequest.check (otherwise : Complaint) : Json → Checked ReorderRequest :=
  Check.fieldsOf otherwise fun fields =>
    ReorderRequest.mk <$> Check.optional fields "integrations" [] (Check.listOf Check.text)

/-- A root decoder for a policy; an empty id takes it away. -/
structure RootDecoderUpdate where
  rootDecoder : String := ""
  deriving DecidableEq, Repr

/-- An object with the id of a `root_decoder`. -/
def RootDecoderUpdate.check (otherwise : Complaint) : Json → Checked RootDecoderUpdate :=
  Check.fieldsOf otherwise fun fields =>
    RootDecoderUpdate.mk <$> Check.optional fields "root_decoder" "" Check.text

/-! ### The order of integrations -/

/-- The items of a list, each where it stands first. -/
def distinct (items : List String) : List String := items.eraseDups

/-- A wanted order applied to a stored list: the ids of the stored list, those in the wanted order
first and in that order, the others behind them as they are stored. -/
def mergedOrder (wanted stored : List String) : List String :=
  let first := (distinct wanted).filter fun id => stored.contains id
  first ++ (distinct stored).filter fun id => !first.contains id

end Lifecycle
