import Lifecycle.Proofs.Bodies
import Lifecycle.Proofs.Resolution

/-!
# Labels of stored bodies

A body names its space by labels: one under `space`, one in its document (`Content.Place`). A label
is a plain value, or an object that holds the name. Of the default candidates, two read a plain
label at a place, and two the name in a label that is an object (`Content.Place.fields`); where an
index has fields of their own type behind `.keyword`, the names that a body has in some fields are
therefore told by its labels (`Content.namedIn_iff`).

Relabelling keeps the places of the labels and their kinds (`Content.label?_relabelled`). So a body
that is found in one space is found in the one that it is relabelled to, by the same field, and in
no other (`Content.finds_relabelled`).
-/

namespace Lifecycle

/-! ### Paths -/

namespace Query

/-- The value at a path is the one at its end behind its start. -/
theorem at?_append (value : Json) (path rest : List String) :
    at? value (path ++ rest) = (at? value path).bind (at? · rest) := by
  induction path generalizing value with
  | nil => rw [List.nil_append, at?, Option.bind_some]
  | cons key path ih =>
    cases value with
    | object fields =>
      rw [List.cons_append, at?, at?]
      cases Table.get? fields key with
      | none => rfl
      | some next => exact ih next
    | _ => rfl

theorem at?_key (value : Json) (key : String) : at? value [key] = value.get? key := by
  cases value with
  | object fields =>
    rw [at?, Json.get?]
    cases Table.get? fields key <;> rfl
  | _ => rfl

/-- The name of a field without the ending behind it. -/
def stem (field : String) : String :=
  if keywordEnding.isSuffixOf field.toList then
    String.ofList (field.toList.take (field.toList.length - keywordEnding.length))
  else field

end Query

namespace Content

open Query (searchable valueAt? holdsValue)

/-! ### Places of labels -/

/-- A place where a body may have a label. -/
inductive Place where
  | top
  | within
  deriving DecidableEq, Repr

namespace Place

def all : List Place := [.top, .within]

def path : Place → List String
  | .top => ["space"]
  | .within => ["document", "space"]

/-- The candidates that read the label at a place: as a plain value, or the name in it. -/
def fields : Place → (named : Bool) → List String
  | .top, false => ["space.keyword", "space"]
  | .top, true => ["space.name.keyword", "space.name"]
  | .within, false => ["document.space.keyword", "document.space"]
  | .within, true => ["document.space.name.keyword", "document.space.name"]

/-- The path that the candidates read. -/
def fieldPath (place : Place) (named : Bool) : List String :=
  place.path ++ if named then ["name"] else []

theorem split_stem {place : Place} {named : Bool} {field : String}
    (h : field ∈ place.fields named) :
    Text.split '.' (Query.stem field) = place.fieldPath named := by
  have hall : ∀ field ∈ place.fields named,
      Text.split '.' (Query.stem field) = place.fieldPath named := by
    cases place <;> cases named <;> decide
  exact hall field h

/-- Each candidate reads the label at a place. -/
theorem exists_mem_fields {field : String}
    (h : field ∈ ({} : ContentSettings).spaceFieldCandidates) :
    ∃ place named, field ∈ fields place named := by
  have hcandidates : ({} : ContentSettings).spaceFieldCandidates =
      all.flatMap fun place => place.fields false ++ place.fields true := rfl
  rw [hcandidates, List.mem_flatMap] at h
  obtain ⟨place, -, hfield⟩ := h
  rcases List.mem_append.mp hfield with hplain | hnamed
  · exact ⟨place, false, hplain⟩
  · exact ⟨place, true, hnamed⟩

end Place

/-- The label of a body at a place. -/
def label? (body : Table Json) (place : Place) : Option Json :=
  Query.at? (.object body) place.path

/-- Whether a label is an object. -/
def isObject : Json → Bool
  | .object _ => true
  | _ => false

/-- What names the space in a label. -/
def naming? : Json → Option Json
  | .object fields => Table.get? fields "name"
  | label => some label

/-- Whether a label names a space. -/
def labelNames (label : Json) (name : String) : Bool :=
  (naming? label).any (holdsValue · (.text name))

/-! ### What the candidates read -/

/-- A mapping whose candidates with `.keyword` behind their name have that type, as far as they are
mapped. -/
def Keyworded (mapping : Mapping) : Prop :=
  ∀ field ∈ ({} : ContentSettings).spaceFieldCandidates,
    Query.keywordEnding.isSuffixOf field.toList = true →
      (mapping.get? field).all (· == "keyword") = true

instance (mapping : Mapping) : Decidable (Keyworded mapping) :=
  inferInstanceAs (Decidable (∀ field ∈ ({} : ContentSettings).spaceFieldCandidates,
    Query.keywordEnding.isSuffixOf field.toList = true →
      (mapping.get? field).all (· == "keyword") = true))

/-- Whether a label at a place can be read in some fields. -/
def legible (mapping : Mapping) (fields : List String) (place : Place) (label : Json) : Bool :=
  fields.any fun field => searchable mapping field && (place.fields (isObject label)).contains field

section

variable {mapping : Mapping} {fields : List String} {body : Table Json} {place : Place}
  {named : Bool} {name target : String}

theorem valueAt?_of_mem (hmapping : Keyworded mapping) {field : String}
    (hfield : field ∈ place.fields named)
    (hcandidate : field ∈ ({} : ContentSettings).spaceFieldCandidates)
    (hsearchable : searchable mapping field = true) :
    valueAt? mapping body field = Query.at? (.object body) (place.fieldPath named) := by
  have hname : Query.readName mapping field = Query.stem field := by
    rw [Query.readName, Query.stem]
    cases hending : Query.keywordEnding.isSuffixOf field.toList with
    | false => rfl
    | true =>
      have htype := hmapping field hcandidate hending
      rw [searchable] at hsearchable
      cases htypeOf : Table.get? mapping field with
      | none =>
        rw [htypeOf] at hsearchable
        cases hsearchable
      | some type =>
        rw [htypeOf] at htype
        rw [eq_of_beq htype]
        rfl
  rw [valueAt?, hname, Place.split_stem hfield]

/-- The plain label at a place is the label there, and the name in it is that of an object. -/
theorem at?_fieldPath (body : Table Json) (place : Place) (named : Bool) :
    Query.at? (.object body) (place.fieldPath named) =
      (label? body place).bind fun label => if named then label.get? "name" else some label := by
  rw [Place.fieldPath, Query.at?_append]
  cases named with
  | false => rfl
  | true =>
    simp only [if_true, Query.at?_key]
    rfl

/-- The names that a body has in some candidates are told by its labels. -/
theorem namedIn_iff (hmapping : Keyworded mapping)
    (hfields : ∀ field ∈ fields, field ∈ ({} : ContentSettings).spaceFieldCandidates) :
    Scope.namedIn mapping fields name body = true ↔
      ∃ place label, label? body place = some label ∧
        legible mapping fields place label = true ∧ labelNames label name = true := by
  rw [Scope.namedIn, List.any_eq_true]
  constructor
  · rintro ⟨field, hfield, hmatch⟩
    obtain ⟨hsearchable, hholds⟩ := Bool.and_eq_true_iff.mp hmatch
    obtain ⟨place, named, hplace⟩ := Place.exists_mem_fields (hfields field hfield)
    rw [Scope.holdsAt, valueAt?_of_mem hmapping hplace (hfields field hfield) hsearchable,
      at?_fieldPath] at hholds
    cases hlabel : label? body place with
    | none =>
      rw [hlabel] at hholds
      cases hholds
    | some label =>
      rw [hlabel, Option.bind_some] at hholds
      -- a label that is read as it is named is one of that kind
      have hkind : isObject label = named ∧ labelNames label name = true := by
        cases named with
        | false =>
          cases label with
          | object fields => cases hholds
          | _ => exact ⟨rfl, hholds⟩
        | true =>
          cases label with
          | object fields => exact ⟨rfl, hholds⟩
          | _ => cases hholds
      refine ⟨place, label, hlabel, List.any_eq_true.mpr ⟨field, hfield, ?_⟩, hkind.2⟩
      rw [hkind.1, hsearchable, Bool.true_and, List.contains_iff_mem]
      exact hplace
  · rintro ⟨place, label, hlabel, hlegible, hnames⟩
    obtain ⟨field, hfield, hmatch⟩ := List.any_eq_true.mp hlegible
    obtain ⟨hsearchable, hplace⟩ := Bool.and_eq_true_iff.mp hmatch
    rw [List.contains_iff_mem] at hplace
    refine ⟨field, hfield, ?_⟩
    rw [hsearchable, Bool.true_and, Scope.holdsAt,
      valueAt?_of_mem hmapping hplace (hfields field hfield) hsearchable, at?_fieldPath, hlabel,
      Option.bind_some]
    cases label with
    | object fields => exact hnames
    | _ => exact hnames

/-! ### Relabelling -/

theorem isObject_labelled (label : Json) (name : String) :
    isObject (labelled label name) = isObject label := by
  cases label <;> rfl

/-- A label that is renamed names its new space, and no other. -/
theorem labelNames_labelled (label : Json) (target name : String) :
    labelNames (labelled label target) name = (target == name) := by
  cases label with
  | object fields =>
    rw [labelNames, labelled, naming?, Table.get?_put, if_pos rfl]
    rfl
  | _ => rfl

theorem legible_labelled (label : Json) :
    legible mapping fields place (labelled label name) = legible mapping fields place label := by
  rw [legible, legible, isObject_labelled]

theorem label?_top (body : Table Json) : label? body .top = body.get? "space" :=
  Query.at?_key (.object body) "space"

theorem label?_within (body : Table Json) :
    label? body .within = (body.get? "document").bind (Json.get? · "space") := by
  have hpath : Place.path .within = ["document"] ++ ["space"] := rfl
  rw [label?, hpath, Query.at?_append, Query.at?_key]
  simp only [Query.at?_key]
  rfl

theorem isAssigned_iff : isAssigned body = true ↔ ∃ place, (label? body place).isSome = true := by
  have htop : body.has "space" = (label? body .top).isSome := by rw [label?_top, Table.has]
  have hwithin : assignedWithin body = (label? body .within).isSome := by
    rw [label?_within, assignedWithin]
    cases Table.get? body "document" with
    | none => rfl
    | some value => cases value <;> rfl
  rw [isAssigned, Bool.or_eq_true, htop, hwithin]
  constructor
  · rintro (h | h)
    · exact ⟨.top, h⟩
    · exact ⟨.within, h⟩
  · rintro ⟨place | place, h⟩
    · exact .inl h
    · exact .inr h

theorem label?_eq_none (h : isAssigned body = false) (place : Place) :
    label? body place = none := by
  rw [← Option.not_isSome_iff_eq_none]
  intro hsome
  have hassigned : isAssigned body = true := isAssigned_iff.mpr ⟨place, hsome⟩
  rw [h] at hassigned
  cases hassigned

theorem get?_relabelledField (fields : Table Json) (name : String) :
    (relabelledField fields name).get? "space" = (fields.get? "space").map (labelled · name) := by
  rw [relabelledField]
  cases hlabel : fields.get? "space" with
  | none => rw [hlabel]; rfl
  | some label => exact (Table.get?_put ..).trans (if_pos rfl)

/-- A body whose document is no object has the same document when it is relabelled. -/
theorem get?_document_relabelled_of_plain
    (hplain : ∀ document, body.get? "document" ≠ some (.object document)) (name : String) :
    (relabelled body name).get? "document" = body.get? "document" := by
  have hfield : (relabelledField body name).get? "document" = body.get? "document" :=
    get?_relabelledField_of_ne (by decide) name
  cases hassigned : isAssigned body with
  | true =>
    rw [relabelled_of_assigned hassigned,
      relabelledWithin_of_plain fun document => hfield ▸ hplain document, hfield]
  | false => rw [relabelled_of_unassigned hassigned, Table.get?_put, if_neg (by decide)]

/-- The label in the document of a body that is relabelled has the new name. -/
theorem label?_within_relabelled (body : Table Json) (name : String) :
    label? (relabelled body name) .within = (label? body .within).map (labelled · name) := by
  rw [label?_within, label?_within]
  obtain ⟨document, hdocument⟩ | hplain := object_or_plain body
  · rw [get?_document_relabelled hdocument, hdocument]
    exact get?_relabelledField document name
  · rw [get?_document_relabelled_of_plain hplain]
    cases hdocument : Table.get? body "document" with
    | none => rfl
    | some value =>
      cases value with
      | object document => exact absurd hdocument (hplain document)
      | _ => rfl

/-- A body that has labels has the same ones when it is relabelled, with the new name. -/
theorem label?_relabelled (hassigned : isAssigned body = true) (name : String) (place : Place) :
    label? (relabelled body name) place = (label? body place).map (labelled · name) := by
  cases place with
  | within => exact label?_within_relabelled body name
  | top =>
    rw [label?_top, label?_top, relabelled_of_assigned hassigned,
      get?_relabelledWithin_of_ne (by decide), get?_relabelledField]

/-- A body that has no label gets one that is an object. -/
theorem label?_relabelled_of_unassigned (hassigned : isAssigned body = false) (name : String) :
    label? (relabelled body name) .top = some (.object [("name", .text name)]) ∧
      label? (relabelled body name) .within = none := by
  refine ⟨?_, ?_⟩
  · rw [label?_top, relabelled_of_unassigned hassigned, Table.get?_put, if_pos rfl]
  · rw [label?_within_relabelled, label?_eq_none hassigned, Option.map_none]

variable (mapping fields body) in
/-- Whether a body that is relabelled can be found by one of some fields: one of its labels can be
read or, if it has none, the one that it gets. -/
def Findable : Prop :=
  (∃ place label, label? body place = some label ∧ legible mapping fields place label = true) ∨
    isAssigned body = false ∧ legible mapping fields .top (.object []) = true

/-- A body that is relabelled names its new space, if it can be found at all, and no other. -/
theorem namedIn_relabelled_iff (hmapping : Keyworded mapping)
    (hfields : ∀ field ∈ fields, field ∈ ({} : ContentSettings).spaceFieldCandidates) :
    Scope.namedIn mapping fields name (relabelled body target) = true ↔
      Findable mapping fields body ∧ name = target := by
  rw [namedIn_iff hmapping hfields]
  cases hassigned : isAssigned body with
  | true =>
    have hlabels := label?_relabelled hassigned target
    constructor
    · rintro ⟨place, label, hlabel, hlegible, hnames⟩
      rw [hlabels, Option.map_eq_some_iff] at hlabel
      obtain ⟨before, hbefore, rfl⟩ := hlabel
      rw [labelNames_labelled, beq_iff_eq] at hnames
      rw [legible_labelled] at hlegible
      exact ⟨.inl ⟨place, before, hbefore, hlegible⟩, hnames.symm⟩
    · rintro ⟨⟨place, label, hlabel, hlegible⟩ | ⟨hnone, -⟩, rfl⟩
      · refine ⟨place, labelled label name, by rw [hlabels, hlabel]; rfl, ?_, ?_⟩
        · rwa [legible_labelled]
        · rw [labelNames_labelled, beq_self_eq_true]
      · rw [hassigned] at hnone
        cases hnone
  | false =>
    obtain ⟨htop, hwithin⟩ := label?_relabelled_of_unassigned hassigned target
    constructor
    · rintro ⟨place, label, hlabel, hlegible, hnames⟩
      cases place with
      | within =>
        rw [hwithin] at hlabel
        cases hlabel
      | top =>
        rw [htop] at hlabel
        cases hlabel
        exact ⟨.inr ⟨hassigned, hlegible⟩, (eq_of_beq hnames).symm⟩
    · rintro ⟨⟨place, label, hlabel, -⟩ | ⟨-, hlegible⟩, rfl⟩
      · rw [label?_eq_none hassigned] at hlabel
        cases hlabel
      · exact ⟨.top, _, htop, hlegible, beq_self_eq_true name⟩

/-- What a body names in some candidates depends on its labels only. -/
theorem namedIn_congr (hmapping : Keyworded mapping)
    (hfields : ∀ field ∈ fields, field ∈ ({} : ContentSettings).spaceFieldCandidates)
    {other : Table Json} (hlabels : ∀ place, label? body place = label? other place) :
    Scope.namedIn mapping fields name body = Scope.namedIn mapping fields name other := by
  rw [Bool.eq_iff_iff, namedIn_iff hmapping hfields, namedIn_iff hmapping hfields]
  simp only [hlabels]

/-- Whether a body can be found when it is relabelled depends on its labels only. -/
theorem findable_congr {other : Table Json}
    (hlabels : ∀ place, label? body place = label? other place) :
    Findable mapping fields body ↔ Findable mapping fields other := by
  have hassigned : isAssigned body = isAssigned other := by
    rw [Bool.eq_iff_iff, isAssigned_iff, isAssigned_iff]
    simp only [hlabels]
  rw [Findable, Findable, hassigned]
  simp only [hlabels]

/-- A body that names a space can be found when it is relabelled. -/
theorem findable_of_namedIn (hmapping : Keyworded mapping)
    (hfields : ∀ field ∈ fields, field ∈ ({} : ContentSettings).spaceFieldCandidates)
    (h : Scope.namedIn mapping fields name body = true) : Findable mapping fields body := by
  obtain ⟨place, label, hlabel, hlegible, -⟩ := (namedIn_iff hmapping hfields).mp h
  exact .inl ⟨place, label, hlabel, hlegible⟩

/-! ### Filters -/

/-- A body that the filter for a space finds is found, when it is relabelled, with the filter for
its new space and with no other; the fields of the filters stem from a probe of any outcome. -/
theorem finds_relabelled (hmapping : Keyworded mapping) {outcome : Except Fault Json} {id : String}
    (hfields : fields = (Resolver.ofOutcome ({} : ContentSettings).spaceFieldCandidates
      outcome).search)
    (h : Query.finds ⟨mapping, id, body⟩ (Scope.filter name fields) = true)
    (target other : String) :
    Query.finds ⟨mapping, id, relabelled body target⟩ (Scope.filter other fields) =
      (other == target) := by
  have hcandidates : ∀ field ∈ fields, field ∈ ({} : ContentSettings).spaceFieldCandidates := by
    intro field hfield
    rw [hfields] at hfield
    exact Resolver.mem_search_ofOutcome hfield
  have hsome : fields ≠ [] := by
    rw [hfields]
    exact Resolver.search_ofOutcome_ne_nil (by decide) outcome
  have hfinds : ∀ space body, Query.finds ⟨mapping, id, body⟩ (Scope.filter space fields) =
      Scope.namedIn mapping fields space body := fun space body =>
    Query.finds_of_holds (Scope.holds_filter_namedIn ⟨mapping, id, body⟩ space hsome)
  rw [hfinds] at h
  have hfindable := findable_of_namedIn hmapping hcandidates h
  rw [hfinds, Bool.eq_iff_iff, namedIn_relabelled_iff hmapping hcandidates, beq_iff_eq]
  exact ⟨And.right, fun hname => ⟨hfindable, hname⟩⟩

end

/-- A body that names two spaces in a list, and one in an object in its document. -/
def listedBody : Table Json :=
  [("space", .list [.text "draft", .text "custom"]),
   ("document", .object
     [("id", .text "x"), ("space", .object [("name", .text "draft"), ("rank", .int 1)])])]

/-- Where only the object can be searched, the body is found in `draft`, and behind its relabelling
in `test` only. -/
theorem finds_relabelled_listedBody :
    Query.finds ⟨[("document.space.name", "text")], "a", listedBody⟩
      (Scope.filter "draft" ["document.space.name"]) = true ∧
    Query.finds ⟨[("document.space.name", "text")], "a", relabelled listedBody "test"⟩
      (Scope.filter "test" ["document.space.name"]) = true ∧
    Query.finds ⟨[("document.space.name", "text")], "a", relabelled listedBody "test"⟩
      (Scope.filter "draft" ["document.space.name"]) = false := by
  have hmapping : Keyworded [("document.space.name", "text")] := by decide
  have hfields : ["document.space.name"] =
      (Resolver.ofOutcome ({} : ContentSettings).spaceFieldCandidates
        (.ok (.object (Memory.capabilities [("document.space.name", "text")]
          ({} : ContentSettings).spaceFieldCandidates)))).search := by
    decide
  have hfound : Query.finds ⟨[("document.space.name", "text")], "a", listedBody⟩
      (Scope.filter "draft" ["document.space.name"]) = true := by
    decide
  exact ⟨hfound, finds_relabelled hmapping hfields hfound "test" "test",
    finds_relabelled hmapping hfields hfound "test" "draft"⟩

end Content

end Lifecycle
