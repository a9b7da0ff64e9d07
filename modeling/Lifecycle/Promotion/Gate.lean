import Lifecycle.Policy.Stored

/-!
# The root decoder of a space

A space whose users may choose a root decoder can be promoted only when its policy names one that is
there. This module checks that, sets the root decoder, and lists the decoders to choose from.
-/

namespace Lifecycle.Gate

/-! ### The requirement -/

/-- Whether a space needs a root decoder, and whether it has one that is there. -/
structure Requirement where
  required : Bool
  satisfied : Bool
  deriving DecidableEq, Repr

namespace Requirement

/-- Whether the requirement stands in the way of a promotion. -/
def blocks (requirement : Requirement) : Bool := requirement.required && !requirement.satisfied

def toJson (requirement : Requirement) : Json :=
  .object [("required", .bool requirement.required), ("satisfied", .bool requirement.satisfied)]

end Requirement

/-- Whether a space has a decoder with an id. -/
def decoderExists (space : Space) (decoder : String) : Work Bool := do
  let index := (← Work.settings).decodersIndex
  let query ← Resolver.within index space (Scope.terms "document.id" [decoder])
  let page ← Store.search index { query, size := 1, source := Json.texts ["document.id"] }
  pure (!page.hits.isEmpty)

/-- Whether a policy names a root decoder that its space has. -/
def isSatisfied (space : Space) (policy : Option PolicyRecord) : Work Bool := do
  match policy with
  | none => pure false
  | some record =>
    if record.document.rootDecoder.isEmpty then pure false
    else decoderExists space record.document.rootDecoder

def check (space : Space) : Work Requirement := do
  let policy ← Policies.get? space
  let satisfied ← isSatisfied space policy
  pure ⟨space.allows .defineRootDecoder, satisfied⟩

/-- Fails when the requirement of a space stands in the way of its promotion. -/
def ensure (space : Space) : Work Unit := do
  let requirement ← check space
  if requirement.blocks then throw (.decoderRequired space.name)

/-! ### Choosing -/

/-- Sets the root decoder of the policy of a space; a blank id takes it away. -/
def assign (space : Space) (decoder : String) : Work PolicyRecord := do
  let record ← Policies.editable space .defineRootDecoder
  let decoder := Text.trim decoder
  if !decoder.isEmpty then
    if !(← decoderExists space decoder) then throw (.decoderNotFound space.name decoder)
  Policies.save space { record.document with rootDecoder := decoder } (some record) none

structure Candidate where
  id : String
  name : String
  deriving DecidableEq, Repr

/-- A page of decoders to choose from, and how many there are on all pages. -/
structure CandidatePage where
  total : Int
  items : List Candidate
  deriving DecidableEq, Repr

def CandidatePage.toJson (page : CandidatePage) : Json :=
  .object
    [("total", .int page.total),
     ("items", .list (page.items.map fun candidate =>
       .object [("id", .text candidate.id), ("name", .text candidate.name)]))]

/-- The query for decoders whose name has a text in it, or whose id is the text. A blank text, or
none, asks for all. -/
def candidateQuery (text : Option String) : Json :=
  let term := Text.trim (text.getD "")
  if term.isEmpty then .null
  else
    .object [("bool", .object
      [("should", .list
        [.object [("wildcard", .object [("document.name", .object
           [("value", .text ("*" ++ term ++ "*")), ("case_insensitive", .bool true)])])],
         Scope.term "document.id" term]),
       ("minimum_should_match", .int 1)])]

/-- A decoder found as one to choose: by its id or else its storage id, with its name or else its
id. -/
def toCandidate (hit : Hit) : Except Fault Candidate := do
  let fields ← Content.documentFields hit.source
  let id := (((Json.under fields "id").given?).map Json.display).getD hit.id
  pure ⟨id, (((Json.under fields "name").given?).map Json.display).getD id⟩

/-- The clause that sorts by a field, in ascending order. -/
def sortBy (field : String) : Json :=
  .list [.object [(field, .object
    [("order", .text "asc"), ("unmapped_type", .text "keyword")])]]

/-- The decoders of a space to choose from, sorted by name. -/
def candidates (space : Space) (text : Option String) (first size : Int) :
    Work CandidatePage := do
  let index := (← Work.settings).decodersIndex
  let query ← Resolver.within index space (candidateQuery text)
  let page ← Store.search index
    { query, sort := sortBy "document.name", first, size
      source := Json.texts ["document.id", "document.name"] }
  let items ← Work.ofExcept (page.hits.mapM toCandidate)
  pure ⟨page.total, items⟩

end Lifecycle.Gate
