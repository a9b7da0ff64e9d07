import Mathlib.Tactic.Set
import Lifecycle.Query.Scope
import Lifecycle.Settings.Content
import Lifecycle.Space.Fields
import Lifecycle.Store.Memory

/-!
# What scoped queries find

A scoped query uses the candidates that a probe marks as fields that can be searched or, where the
probe failed or marked none, all candidates; either way it finds the documents that name the space
in one of the candidates that can be searched (`Scope.holds_filter_probed`). A search in memory
therefore finds the documents of an index that pass a test (`Memory.found_inSpace`,
`Memory.found_withIds`).

Under the default mapping the space can be searched in two of the candidates, `space.name` and its
keyword; both read the same value. So there a scoped query finds the documents that *belong* to the
space (`Scope.belongs`, `Scope.carries_default`).
-/

namespace Lifecycle

/-! ### Clauses -/

namespace Query

/-- A clause for a text looks at the value of its field, if the field can be searched. -/
theorem holds_term (d : Subject) (inner : Bool) (field value : String) :
    holds d inner (Scope.term field value) =
      .ok (searchable d.mapping field &&
        (valueAt? d.mapping d.body field).any (holdsValue · (.text value))) := by
  show termHolds d inner (.object [(field, .text value)]) = _
  simp only [termHolds, soleField, bind, Except.bind, pure, Except.pure]
  cases searchable d.mapping field
  · rfl
  · cases valueAt? d.mapping d.body field <;> rfl

/-- A clause for some texts looks at the value of its field, if the field can be searched. -/
theorem holds_terms (d : Subject) (inner : Bool) (field : String) (values : List String) :
    holds d inner (Scope.terms field values) =
      .ok (searchable d.mapping field &&
        (valueAt? d.mapping d.body field).any fun stored =>
          values.any fun value => holdsValue stored (.text value)) := by
  show termsHold d inner (.object [(field, Json.texts values)]) = _
  simp only [termsHold, soleField, Json.texts, itemsOf, bind, Except.bind, pure, Except.pure]
  cases searchable d.mapping field
  · rfl
  · cases valueAt? d.mapping d.body field with
    | none => rfl
    | some stored => simp [List.any_map, Function.comp_def]

/-- As many clauses for a text find a document as fields hold the text. -/
theorem countHolding_terms (d : Subject) (fields : List String) (value : String) :
    countHolding d (fields.map fun field => Scope.term field value) =
      .ok (fields.countP fun field => searchable d.mapping field &&
        (valueAt? d.mapping d.body field).any (holdsValue · (.text value))) := by
  induction fields with
  | nil => rfl
  | cons field rest ih =>
    rw [List.map_cons, countHolding, holds_term, ih, List.countP_cons]
    simp only [bind, Except.bind, pure, Except.pure]
    split <;> rfl

/-- A space filter finds a document if one of its fields can be searched and holds the name. -/
theorem holds_filter (d : Subject) (inner : Bool) (space field : String) (rest : List String) :
    holds d inner (Scope.filter space (field :: rest)) =
      .ok ((field :: rest).any fun field => searchable d.mapping field &&
        (valueAt? d.mapping d.body field).any (holdsValue · (.text space))) := by
  show (do
    let count ← countHolding d ((field :: rest).map fun field => Scope.term field space)
    reaches count (.int 1)) = _
  rw [countHolding_terms]
  simp only [bind, Except.bind, reaches, Except.ok.injEq]
  rw [Bool.eq_iff_iff, decide_eq_true_eq, List.any_eq_true, ← List.countP_pos_iff]
  omega

/-- All of a single query hold if it does. -/
theorem allHold_singleton {d : Subject} {query : Json} {found : Bool}
    (h : holds d true query = .ok found) : allHold d [query] = .ok found := by
  rw [allHold, h]
  cases found <;> rfl

end Query

/-! ### Spaces and ids of bodies -/

namespace Scope

/-- Whether a stored body belongs to a space: its `space.name` is the name, or a list that has
it. -/
def belongs (space : Space) (body : Table Json) : Bool :=
  (Query.at? (.object body) ["space", "name"]).any (Query.holdsValue · (.text space.name))

/-- Whether the document of a stored body has one of some ids. -/
def hasIdAmong (ids : List String) (body : Table Json) : Bool :=
  (Query.at? (.object body) ["document", "id"]).any fun stored =>
    ids.any fun id => Query.holdsValue stored (.text id)

/-! ### Fields that name the space -/

/-- The candidates that can be searched under the default mapping. -/
def namedFields : List String := ["space.name.keyword", "space.name"]

/-- The fields that scope a query under the default mapping: those that a probe marks, or all
candidates where the probe failed. -/
def Named (fields : List String) : Prop :=
  fields = namedFields ∨ fields = ({} : ContentSettings).spaceFieldCandidates

/-- The fields that scope a query to a space under a mapping, if the index has one: the candidates
that a probe marks, or all candidates where the probe failed or marked none. -/
def Probed (mapping : Option Mapping) (fields : List String) : Prop :=
  fields = ({} : ContentSettings).spaceFieldCandidates ∨
    fields ≠ [] ∧ ∃ found, mapping = some found ∧
      fields = ({} : ContentSettings).spaceFieldCandidates.filter (Query.searchable found)

/-- Fields that were probed stay so when the index is made. -/
theorem Probed.of_none {fields : List String} (h : Probed none fields) (mapping : Option Mapping) :
    Probed mapping fields := by
  rcases h with h | ⟨-, found, hnone, -⟩
  · exact .inl h
  · cases hnone

/-- Whether a stored body names a space in one of the candidates that can be searched. -/
def carries (mapping : Mapping) (space : Space) (body : Table Json) : Bool :=
  ({} : ContentSettings).spaceFieldCandidates.any fun field =>
    Query.searchable mapping field &&
      (Query.valueAt? mapping body field).any (Query.holdsValue · (.text space.name))

theorem valueAt?_keyword (body : Table Json) :
    Query.valueAt? Memory.defaultMapping body "space.name.keyword" =
      Query.at? (.object body) ["space", "name"] := by
  have hpath : Text.split '.' (Query.readName Memory.defaultMapping "space.name.keyword") =
      ["space", "name"] := by decide
  rw [Query.valueAt?, hpath]

theorem valueAt?_name (body : Table Json) :
    Query.valueAt? Memory.defaultMapping body "space.name" =
      Query.at? (.object body) ["space", "name"] := by
  have hpath : Text.split '.' (Query.readName Memory.defaultMapping "space.name") =
      ["space", "name"] := by decide
  rw [Query.valueAt?, hpath]

/-- The id of a document is read at its path under every mapping. -/
theorem valueAt?_id (mapping : Mapping) (body : Table Json) :
    Query.valueAt? mapping body "document.id" = Query.at? (.object body) ["document", "id"] := by
  have hending : Query.keywordEnding.isSuffixOf "document.id".toList = false := by decide
  have hname : Query.readName mapping "document.id" = "document.id" := by
    rw [Query.readName, hending, Bool.false_and]
    exact if_neg Bool.false_ne_true
  have hpath : Text.split '.' "document.id" = ["document", "id"] := by decide
  rw [Query.valueAt?, hname, hpath]

/-- Under the default mapping a body names a space in one of the candidates if it belongs to it. -/
theorem carries_default (space : Space) (body : Table Json) :
    carries Memory.defaultMapping space body = belongs space body := by
  have hsearchable : ({} : ContentSettings).spaceFieldCandidates.filter
      (Query.searchable Memory.defaultMapping) = namedFields := by decide
  rw [carries, ← List.any_filter, hsearchable]
  simp [namedFields, valueAt?_keyword, valueAt?_name, belongs]

/-- Under the default mapping the fields that scope a query are those that name the space. -/
theorem probed_default_iff (fields : List String) :
    Probed (some Memory.defaultMapping) fields ↔ Named fields := by
  have hsearchable : ({} : ContentSettings).spaceFieldCandidates.filter
      (Query.searchable Memory.defaultMapping) = namedFields := by decide
  constructor
  · rintro (h | ⟨-, found, hfound, h⟩)
    · exact .inr h
    · cases Option.some.inj hfound
      exact .inl (h.trans hsearchable)
  · rintro (h | h)
    · exact .inr ⟨by rw [h]; decide, _, rfl, h.trans hsearchable.symm⟩
    · exact .inl h

/-- A space filter finds the bodies that name the space, whichever fields were probed. -/
theorem holds_filter_probed {mapping : Option Mapping} {fields : List String}
    (h : Probed mapping fields) (space : Space) (id : String) (body : Table Json) (inner : Bool) :
    Query.holds ⟨mapping.getD [], id, body⟩ inner (filter space.name fields) =
      .ok (carries (mapping.getD []) space body) := by
  rcases h with rfl | ⟨hsome, found, rfl, rfl⟩
  · exact Query.holds_filter _ _ _ _ _
  · obtain ⟨field, rest, hfields⟩ := List.exists_cons_of_ne_nil hsome
    rw [hfields, Query.holds_filter, ← hfields, List.any_filter, carries]
    simp only [Option.getD_some, ← Bool.and_assoc, Bool.and_self]

/-! ### Scoped queries -/

def inSpace (space : Space) (fields : List String) : Json :=
  .object [("bool", .object [("filter", .list [filter space.name fields])])]

/-- A query for the documents of a space. -/
def scopedTo (space : Space) (query : Json) (fields : List String) : Json :=
  .object [("bool", .object
    [("must", .list [query]), ("filter", .list [filter space.name fields])])]

/-- The query for the entities of a space that have one of some ids. -/
def withIds (space : Space) (ids fields : List String) : Json :=
  .object [("bool", .object
    [("must", .list [terms "document.id" ids]), ("filter", .list [filter space.name fields])])]

theorem apply_null (space : Space) (fields : List String) :
    apply .null (some space.name) fields = .ok (inSpace space fields) := by
  cases space <;> rfl

theorem apply_field (space : Space) (field : String) (values fields : List String) :
    apply (terms field values) (some space.name) fields =
      .ok (scopedTo space (terms field values) fields) := by
  cases space <;> rfl

theorem apply_terms (space : Space) (ids fields : List String) :
    apply (terms "document.id" ids) (some space.name) fields = .ok (withIds space ids fields) :=
  apply_field space "document.id" ids fields

section

variable {mapping : Option Mapping} {fields : List String} (h : Probed mapping fields)
  (space : Space)

include h

theorem holds_inSpace (id : String) (body : Table Json) :
    Query.holds ⟨mapping.getD [], id, body⟩ false (inSpace space fields) =
      .ok (carries (mapping.getD []) space body) := by
  show (do
    if !(← Query.allHold _ [filter space.name fields]) then return false
    return true) = _
  rw [Query.allHold_singleton (holds_filter_probed h space id body true)]
  cases carries (mapping.getD []) space body <;> rfl

/-- A scoped query finds the documents of the space that the query finds. -/
theorem holds_scopedTo {query : Json} {id : String} {body : Table Json} {found : Bool}
    (hquery : Query.holds ⟨mapping.getD [], id, body⟩ true query = .ok found) :
    Query.holds ⟨mapping.getD [], id, body⟩ false (scopedTo space query fields) =
      .ok (carries (mapping.getD []) space body && found) := by
  show (do
    if !(← Query.allHold _ [query]) then return false
    if !(← Query.allHold _ [filter space.name fields]) then return false
    return true) = _
  rw [Query.allHold_singleton hquery,
    Query.allHold_singleton (holds_filter_probed h space id body true)]
  cases found <;> cases carries (mapping.getD []) space body <;> rfl

theorem holds_withIds (ids : List String) (id : String) (body : Table Json) :
    Query.holds ⟨mapping.getD [], id, body⟩ false (withIds space ids fields) =
      .ok (carries (mapping.getD []) space body &&
        (Query.searchable (mapping.getD []) "document.id" && hasIdAmong ids body)) := by
  have hterms : Query.holds ⟨mapping.getD [], id, body⟩ true (terms "document.id" ids) =
      .ok (Query.searchable (mapping.getD []) "document.id" && hasIdAmong ids body) := by
    rw [Query.holds_terms, valueAt?_id]
    rfl
  exact holds_scopedTo h space hterms

end

end Scope

/-! ### Searches in memory -/

/-- Filtering by a test that always has an answer. -/
theorem filterM_eq_filter {ε α : Type} (test : α → Except ε Bool) (p : α → Bool) (items : List α)
    (h : ∀ item ∈ items, test item = .ok (p item)) :
    items.filterM test = .ok (items.filter p) := by
  have haux : ∀ found, items.filterAuxM test found = .ok ((items.filter p).reverse ++ found) := by
    induction items with
    | nil => exact fun _ => rfl
    | cons item rest ih =>
      intro found
      rw [List.filterAuxM, h item List.mem_cons_self]
      simp only [bind, Except.bind]
      rw [ih fun x hx => h x (List.mem_cons_of_mem _ hx)]
      cases hp : p item <;> simp [hp]
  rw [List.filterM, haux]
  simp [bind, Except.bind, pure, Except.pure]

namespace Memory

/-- Whether a stored body names a space in one of the fields of an index that can be searched. -/
def carries (memory : Memory) (index : String) (space : Space) (body : Table Json) : Bool :=
  Scope.carries (memory.mapping index) space body

/-- Whether a stored body names a space and has one of some ids, as far as the fields of an index
can be searched. -/
def asked (memory : Memory) (index : String) (space : Space) (ids : List String)
    (body : Table Json) : Bool :=
  memory.carries index space body &&
    (Query.searchable (memory.mapping index) "document.id" && Scope.hasIdAmong ids body)

variable {memory : Memory} {index : String} {fields : List String}

/-- A search for everything in a space finds the documents that name it. -/
theorem found_inSpace (hfields : Scope.Probed (memory.mappings.get? index) fields)
    (space : Space) :
    memory.found index (Scope.inSpace space fields) =
      .ok ((memory.documents index).filter fun entry => memory.carries index space entry.2) :=
  filterM_eq_filter _ _ _ fun entry _ => Scope.holds_inSpace hfields space entry.1 entry.2

/-- A search for ids in a space finds the documents that name it and have one of the ids. -/
theorem found_withIds (hfields : Scope.Probed (memory.mappings.get? index) fields)
    (space : Space) (ids : List String) :
    memory.found index (Scope.withIds space ids fields) =
      .ok ((memory.documents index).filter fun entry => memory.asked index space ids entry.2) :=
  filterM_eq_filter _ _ _ fun entry _ => Scope.holds_withIds hfields space ids entry.1 entry.2

/-- Under the default mapping the documents that name a space are those that belong to it. -/
theorem carries_eq (hmapping : memory.mapping index = defaultMapping) (space : Space)
    (body : Table Json) : memory.carries index space body = Scope.belongs space body := by
  rw [carries, hmapping, Scope.carries_default]

theorem asked_eq (hmapping : memory.mapping index = defaultMapping) (space : Space)
    (ids : List String) (body : Table Json) :
    memory.asked index space ids body =
      (Scope.belongs space body && Scope.hasIdAmong ids body) := by
  have hsearchable : Query.searchable defaultMapping "document.id" = true := by decide
  rw [asked, carries_eq hmapping, hmapping, hsearchable, Bool.true_and]

end Memory

end Lifecycle
