import Lifecycle.Proofs.Labels

/-!
# Laws of relabelling

What a body and its relabelling have in common, and in what they differ, said of the whole body
(`Relabels`): the labels have the new name and are otherwise as they were (`Renames`), all other
entries stay in their places, and a body without a label gets one. No hash tells a document from its
relabelling (`documentFields_relabelled`), for the space of a document is not among its content.

Renaming one label, or the labels at one place, twice is renaming once, and renaming at one place
does not matter to the other (`relabelledField_relabelledWithin`). So of several relabellings the
last one alone counts (`relabelled_relabelled`, `relabelled_foldl`).
-/

namespace Lifecycle.Content

variable {body fields document : Table Json}

/-! ### One label -/

theorem labelled_labelled (label : Json) (first last : String) :
    labelled (labelled label first) last = labelled label last := by
  cases label with
  | object fields => exact congrArg Json.object (Table.put_put fields "name" _ _)
  | _ => rfl

/-- What a label is renamed to: an object has the new name and all its other entries, and anything
else gives way to the name. -/
inductive Renames (name : String) : Json → Json → Prop
  | object {fields renamed : Table Json} (named : renamed.get? "name" = some (.text name))
    (others : renamed.remove "name" = fields.remove "name") :
    Renames name (.object fields) (.object renamed)
  | plain {label : Json} (plain : isObject label = false) : Renames name label (.text name)

theorem renames_labelled (label : Json) (name : String) :
    Renames name label (labelled label name) := by
  cases label with
  | object fields =>
    refine .object ((Table.get?_put ..).trans (if_pos rfl)) ?_
    exact Table.filter_put fields "name" _ _ (by simp) fun _ _ => by simp
  | _ => exact .plain rfl

/-! ### The labels at one place -/

theorem relabelledField_relabelledField (fields : Table Json) (first last : String) :
    relabelledField (relabelledField fields first) last = relabelledField fields last := by
  cases hlabel : fields.get? "space" with
  | none => rw [relabelledField_of_none hlabel]
  | some label =>
    have hfirst : (relabelledField fields first).get? "space" = some (labelled label first) := by
      rw [get?_relabelledField, hlabel, Option.map_some]
    rw [relabelledField_of_some hfirst, relabelledField_of_some hlabel,
      relabelledField_of_some hlabel, Table.put_put, labelled_labelled]

/-- A body without a label in its document is not changed there. -/
theorem relabelledWithin_of_unlabelled (h : label? body .within = none) (name : String) :
    relabelledWithin body name = body := by
  obtain ⟨document, hdocument⟩ | hplain := object_or_plain body
  · have hnone : Table.get? document "space" = none := by
      rwa [label?_within, hdocument] at h
    rw [relabelledWithin_of_object hdocument, relabelledField_of_none hnone,
      Table.put_eq_self hdocument]
  · exact relabelledWithin_of_plain hplain name

theorem relabelledWithin_relabelledWithin (body : Table Json) (first last : String) :
    relabelledWithin (relabelledWithin body first) last = relabelledWithin body last := by
  obtain ⟨document, hdocument⟩ | hplain := object_or_plain body
  · have hfirst : (relabelledWithin body first).get? "document" =
        some (.object (relabelledField document first)) := by
      rw [relabelledWithin_of_object hdocument, Table.get?_put, if_pos rfl]
    rw [relabelledWithin_of_object hfirst, relabelledWithin_of_object hdocument,
      relabelledWithin_of_object hdocument, Table.put_put, relabelledField_relabelledField]
  · rw [relabelledWithin_of_plain hplain]

/-- The two places can be relabelled in either order. -/
theorem relabelledField_relabelledWithin (body : Table Json) (within top : String) :
    relabelledField (relabelledWithin body within) top =
      relabelledWithin (relabelledField body top) within := by
  have hsame : (relabelledField body top).get? "document" = body.get? "document" :=
    get?_relabelledField_of_ne (by decide) top
  obtain ⟨document, hdocument⟩ | hplain := object_or_plain body
  · rw [relabelledWithin_of_object hdocument, relabelledWithin_of_object (hsame.trans hdocument)]
    set renamed : Json := .object (relabelledField document within)
    have hspace : (body.put "document" renamed).get? "space" = body.get? "space" := by
      rw [Table.get?_put, if_neg (by decide)]
    cases hlabel : body.get? "space" with
    | none => rw [relabelledField_of_none (hspace.trans hlabel), relabelledField_of_none hlabel]
    | some label =>
      rw [relabelledField_of_some (hspace.trans hlabel), relabelledField_of_some hlabel]
      exact Table.put_comm (Table.mem_keys_of_get? hdocument) (by decide) renamed _
  · rw [relabelledWithin_of_plain hplain,
      relabelledWithin_of_plain fun document => hsame ▸ hplain document]

/-! ### Several names -/

/-- A body that was relabelled names its space. -/
theorem isAssigned_relabelled (body : Table Json) (name : String) :
    isAssigned (relabelled body name) = true := by
  cases hassigned : isAssigned body with
  | true =>
    obtain ⟨place, hplace⟩ := isAssigned_iff.mp hassigned
    refine isAssigned_iff.mpr ⟨place, ?_⟩
    rwa [label?_relabelled hassigned, Option.isSome_map]
  | false =>
    refine isAssigned_iff.mpr ⟨.top, ?_⟩
    rw [(label?_relabelled_of_unassigned hassigned name).1]
    rfl

/-- Of two names the last one counts. -/
theorem relabelled_relabelled (body : Table Json) (first last : String) :
    relabelled (relabelled body first) last = relabelled body last := by
  rw [relabelled_of_assigned (isAssigned_relabelled body first)]
  cases hassigned : isAssigned body with
  | true =>
    rw [relabelled_of_assigned hassigned, relabelled_of_assigned hassigned,
      relabelledField_relabelledWithin, relabelledField_relabelledField,
      relabelledWithin_relabelledWithin]
  | false =>
    -- the label that the body got is renamed, and there is still none in its document
    obtain ⟨htop, hwithin⟩ := label?_relabelled_of_unassigned hassigned first
    rw [label?_top] at htop
    have hunlabelled : label? (relabelledField (relabelled body first) last) .within = none := by
      rw [label?_within, get?_relabelledField_of_ne (by decide), ← label?_within, hwithin]
    rw [relabelledWithin_of_unlabelled hunlabelled, relabelledField_of_some htop,
      relabelled_of_unassigned hassigned, relabelled_of_unassigned hassigned, Table.put_put]
    rfl

/-- Of any names the last one counts. -/
theorem relabelled_foldl (body : Table Json) (names : List String) (last : String) :
    relabelled (names.foldl relabelled body) last = relabelled body last := by
  induction names generalizing body with
  | nil => rfl
  | cons name rest ih => rw [List.foldl_cons, ih, relabelled_relabelled]

/-! ### The whole body -/

theorem without_relabelledWithin (body : Table Json) (name : String) :
    (relabelledWithin body name).without ["space", "document"] =
      body.without ["space", "document"] := by
  obtain ⟨document, hdocument⟩ | hplain := object_or_plain body
  · rw [relabelledWithin_of_object hdocument]
    exact Table.filter_put body "document" _ _ (by simp) fun _ _ => by simp
  · rw [relabelledWithin_of_plain hplain]

/-- The entries that are neither the label nor the document are the same ones. -/
theorem without_relabelled (body : Table Json) (name : String) :
    (relabelled body name).without ["space", "document"] =
      body.without ["space", "document"] := by
  cases hassigned : isAssigned body with
  | true =>
    rw [relabelled_of_assigned hassigned, without_relabelledWithin]
    exact filter_relabelledField body name fun _ => by simp
  | false =>
    rw [relabelled_of_unassigned hassigned]
    exact Table.filter_put body "space" _ _ (by simp) fun _ _ => by simp

/-- What is read of a body that is relabelled is the relabelled document, where one is read. -/
theorem documentFields_relabelled (body : Table Json) (name : String) :
    documentFields (relabelled body name) =
      (documentFields body).map fun fields => relabelledField fields name := by
  obtain ⟨document, hdocument⟩ | hplain := object_or_plain body
  · rw [documentFields_of_object hdocument,
      documentFields_of_object (get?_document_relabelled hdocument name)]
    rfl
  · have hsame : documentFields (relabelled body name) = documentFields body := by
      rw [documentFields, documentFields, documentValue, documentValue, Json.under, Json.under,
        get?_document_relabelled_of_plain hplain]
    rw [hsame]
    cases hfields : documentFields body with
    | error fault => rfl
    | ok fields =>
      -- what is no object and can be read is nothing that counts as given
      have hempty : fields = [] := (document_of_documentFields hfields).resolve_left (hplain fields)
      rw [hempty]
      rfl

/-- Relabelling does not change the content hash, whatever keys it leaves out. -/
theorem hash_documentFields_relabelled (body : Table Json) (name : String)
    (excluded : List String) :
    (documentFields (relabelled body name)).map (hash · excluded) =
      (documentFields body).map (hash · excluded) := by
  rw [documentFields_relabelled]
  cases documentFields body with
  | error fault => rfl
  | ok fields => exact congrArg Except.ok (hash_relabelledField fields name excluded)

/-- What a body and the body that it is relabelled to have to do with each other. -/
structure Relabels (name : String) (body after : Table Json) : Prop where
  /-- Entries under other keys are the same, in the same order. -/
  others : after.without ["space", "document"] = body.without ["space", "document"]
  /-- A document that is an object has the same entries but for its label. -/
  document : ∀ fields, body.get? "document" = some (.object fields) →
    ∃ copied, after.get? "document" = some (.object copied) ∧
      Table.remove copied "space" = Table.remove fields "space"
  /-- Anything else that stands in the place of a document, or nothing, stays. -/
  plain : (∀ fields, body.get? "document" ≠ some (.object fields)) →
    after.get? "document" = body.get? "document"
  /-- A label has the new name and what it had beside it. -/
  renamed : ∀ place label, label? body place = some label →
    ∃ found, label? after place = some found ∧ Renames name label found
  /-- A document gets no label. -/
  within : label? body .within = none → label? after .within = none
  /-- A body gets a label when there was none at all. -/
  added : label? body .top = none → label? after .top =
    if label? body .within = none then some (.object [("name", .text name)]) else none
  /-- The content stays, whatever else is left out of it. -/
  hash : ∀ excluded, (documentFields after).map (hash · excluded) =
    (documentFields body).map (hash · excluded)

theorem relabels_relabelled (body : Table Json) (name : String) :
    Relabels name body (relabelled body name) where
  others := without_relabelled body name
  document fields hdocument := by
    refine ⟨_, get?_document_relabelled hdocument name, ?_⟩
    exact filter_relabelledField fields name fun _ => by simp
  plain hplain := get?_document_relabelled_of_plain hplain name
  renamed place label hlabel := by
    have hassigned : isAssigned body = true := isAssigned_iff.mpr ⟨place, by rw [hlabel]; rfl⟩
    refine ⟨labelled label name, ?_, renames_labelled label name⟩
    rw [label?_relabelled hassigned, hlabel, Option.map_some]
  within hwithin := by rw [label?_within_relabelled, hwithin, Option.map_none]
  added htop := by
    cases hassigned : isAssigned body with
    | true =>
      have hwithin : label? body .within ≠ none := by
        obtain ⟨place, hplace⟩ := isAssigned_iff.mp hassigned
        cases place with
        | top => simp [htop] at hplace
        | within => simpa [Option.isSome_iff_ne_none] using hplace
      rw [label?_relabelled hassigned, htop, if_neg hwithin, Option.map_none]
    | false =>
      rw [(label?_relabelled_of_unassigned hassigned name).1,
        if_pos (label?_eq_none hassigned .within)]
  hash := hash_documentFields_relabelled body name

/-- The laws of relabelling. Of two names, and of any number of names, the last one counts; and
relabelling changes nothing but the names in the labels of a body, or gives it a label if it has
none, so that its content stays. -/
theorem relabelling_laws (body : Table Json) (first last : String) :
    relabelled (relabelled body first) last = relabelled body last ∧
    (∀ names : List String,
      relabelled (names.foldl relabelled body) last = relabelled body last) ∧
    Relabels last body (relabelled body last) :=
  ⟨relabelled_relabelled body first last, fun names => relabelled_foldl body names last,
    relabels_relabelled body last⟩

/-- The plain label under `space` and the named one in the document keep their shapes. -/
example :
    relabelled
        [("space", .list [.text "draft"]),
         ("document", .object [("id", .text "x"),
           ("space", .object [("name", .text "draft"), ("rank", .int 1)])])] "test" =
      [("space", .text "test"),
       ("document", .object [("id", .text "x"),
         ("space", .object [("name", .text "test"), ("rank", .int 1)])])] := by
  rfl

end Lifecycle.Content
