import Lifecycle.Proofs.Checks
import Lifecycle.Proofs.ScopedSearches
import Lifecycle.Proofs.Templates
import Lifecycle.Settings.Content

/-!
# Storage ids of copies

The check of a template looks at the names of its fields and at nothing else
(`ContentSettings.checkTemplate_eq_good_iff`); a field without a name it passes over. So a template
that passes need not make a storage id, and where it makes some they need not differ.

`ContentSettings.storage_ids` says of every template that passes what its fields are to be like for
that. In a template whose layouts hold no fields each part shows the space and the id by itself
(`Part.copied`, `rendered_eq`), so that the laws of rendered templates apply.
-/

namespace Lifecycle

open Text Text.Template

/-! ### Fields of storage ids -/

namespace Text.Template

/-- The values that a template of storage ids is rendered with. -/
def copyArguments (space id : String) : Table String := [("space", space), ("entity_id", id)]

def Field.ShowsId (field : Field) : Prop := field.name = "entity_id".toList

instance (field : Field) : Decidable field.ShowsId := inferInstanceAs (Decidable (_ = _))

/-- The names of fields that the check of a template lets through. -/
def passedNames : List (List Char) := [[], "space".toList, "entity_id".toList]

/-- A field shows every value: it has a name, its conversion exists and its layout is one for texts.
-/
structure Field.Fits (field : Field) : Prop where
  named : field.name ≠ []
  converts : field.conversion ∈ [none, some 's', some 'r', some 'a']
  laysOut : ∃ layout, layoutOf field.layout = .ok layout

theorem Field.fits_iff {field : Field} :
    field.Fits ↔ field.name ≠ [] ∧ ∃ view, field.shows = .ok view := by
  rw [exists_shows_iff]
  exact ⟨fun h => ⟨h.named, h.converts, h.laysOut⟩, fun h => ⟨h.1, h.2.1, h.2.2⟩⟩

/-- What a field shows of the space and the id of an entity. -/
def Field.copied (field : Field) : Except TemplateFault (List Char → List Char → List Char) :=
  if field.name = [] then .error (.noArgument 0)
  else field.shows.map fun view space id => view (if field.ShowsId then id else space)

/-- What a part shows of the space and the id of an entity. -/
def Part.copied (part : Part) : Except TemplateFault (List Char → List Char → List Char) :=
  match part.field with
  | none => .ok fun _ _ => part.literal
  | some field => field.copied.map fun view space id => part.literal ++ view space id

theorem Field.copied_eq_ok_iff {field : Field} {view : List Char → List Char → List Char} :
    field.copied = .ok view ↔ field.name ≠ [] ∧ ∃ shows, field.shows = .ok shows ∧
      view = fun space id => shows (if field.ShowsId then id else space) := by
  rw [copied]
  by_cases hname : field.name = []
  · simp [hname]
  · rw [if_neg hname]
    cases field.shows <;> simp [hname, Except.map, eq_comm]

theorem Field.exists_copied_iff {field : Field} :
    (∃ view, field.copied = .ok view) ↔ field.Fits := by
  simp only [fits_iff, copied_eq_ok_iff]
  exact ⟨fun ⟨_, hname, shows, hshows, _⟩ => ⟨hname, shows, hshows⟩,
    fun ⟨hname, shows, hshows⟩ => ⟨_, hname, shows, hshows, rfl⟩⟩

variable {part : Part} {view : List Char → List Char → List Char}

theorem Part.exists_copied_iff :
    (∃ view, part.copied = .ok view) ↔ ∀ field ∈ part.field, field.Fits := by
  obtain ⟨literal, field⟩ := part
  cases field with
  | none => simp [copied]
  | some field =>
    simp only [Option.mem_some_iff, forall_eq', ← Field.exists_copied_iff, copied]
    cases field.copied <;> simp [Except.map]

theorem Part.copied_of_field {field : Field} (hfield : part.field = some field)
    (hview : part.copied = .ok view) : ∃ shows, field.shows = .ok shows ∧
      view = fun space id => part.literal ++ shows (if field.ShowsId then id else space) := by
  rw [copied, hfield] at hview
  cases hcopied : field.copied with
  | error fault => simp [hcopied, Except.map] at hview
  | ok shown =>
    obtain ⟨-, shows, hshows, rfl⟩ := Field.copied_eq_ok_iff.mp hcopied
    simp only [hcopied, Except.map, Except.ok.injEq] at hview
    exact ⟨shows, hshows, hview.symm⟩

/-- A part whose field does not name the id shows the same of all ids. -/
theorem Part.fixed_copied (h : ∀ field ∈ part.field, ¬field.ShowsId)
    (hview : part.copied = .ok view) (space : List Char) : Fixed (view space) := by
  intro cs ds
  cases hfield : part.field with
  | none =>
    rw [copied, hfield] at hview
    cases hview
    rfl
  | some field =>
    obtain ⟨shows, -, rfl⟩ := copied_of_field hfield hview
    simp [h field hfield]

/-- A part whose field names the id and is whole tells the id. -/
theorem Part.telling_copied {field : Field} (hfield : part.field = some field)
    (hid : field.ShowsId) (hwhole : field.Whole) (hview : part.copied = .ok view)
    (space : List Char) : Telling (view space) := by
  obtain ⟨shows, hshows, rfl⟩ := copied_of_field hfield hview
  simp only [hid, if_true]
  exact (hwhole.telling hshows).behind part.literal

variable {inner : List Char → Except TemplateFault (List Char)} {space id : String}

theorem renderField_eq {field : Field} (hname : field.name ∈ passedNames)
    (hnested : field.nested = false) :
    renderField inner (copyArguments space id) field =
      field.copied.map (· space.toList id.toList) := by
  simp only [passedNames, List.mem_cons, List.not_mem_nil, or_false] at hname
  rcases hname with hempty | hspace | hid
  · have hvalue : valueOf (copyArguments space id) field.name = .error (.noArgument 0) := by
      rw [hempty]
      rfl
    rw [renderField, hvalue, Field.copied, if_pos hempty]
    rfl
  · have hvalue : valueOf (copyArguments space id) field.name = .ok space.toList := by
      rw [hspace]
      rfl
    have hother : ¬field.ShowsId := by
      rw [Field.ShowsId, hspace]
      decide
    rw [renderField_of_value hvalue hnested, Field.copied, if_neg (by rw [hspace]; decide)]
    cases field.shows <;> simp [Except.map, hother]
  · have hvalue : valueOf (copyArguments space id) field.name = .ok id.toList := by
      rw [hid]
      rfl
    have hown : field.ShowsId := hid
    rw [renderField_of_value hvalue hnested, Field.copied, if_neg (by rw [hid]; decide)]
    cases field.shows <;> simp [Except.map, hown]

theorem rendered_eq {part : Part} (h : ∀ field ∈ part.field, field.name ∈ passedNames)
    (hnested : ∀ field ∈ part.field, field.nested = false) :
    part.rendered inner (copyArguments space id) =
      part.copied.map (· space.toList id.toList) := by
  obtain ⟨literal, field⟩ := part
  cases field with
  | none => simp [Part.rendered, Part.copied, pure, Except.pure, bind, Except.bind, Except.map]
  | some field =>
    simp only [Part.rendered, Part.copied, renderField_eq (h field rfl) (hnested field rfl)]
    cases field.copied <;> rfl

end Text.Template

namespace ContentSettings

/-! ### Templates that pass the check -/

/-- The names of fields that are not empty are those that the check of a template looks at. -/
theorem mem_names_iff {fields : List Field} {name : String} :
    name ∈ (fields.map fun field => String.ofList field.name).filter (!·.isEmpty) ↔
      name ≠ "" ∧ ∃ field ∈ fields, field.name = name.toList := by
  simp only [List.mem_filter, List.mem_map, Bool.not_eq_true', ← Bool.not_eq_true,
    String.isEmpty_iff]
  constructor
  · rintro ⟨⟨field, hfield, rfl⟩, hname⟩
    exact ⟨hname, field, hfield, String.toList_ofList.symm⟩
  · rintro ⟨hname, field, hfield, hchars⟩
    exact ⟨⟨field, hfield, by rw [hchars, String.ofList_toList]⟩, hname⟩

theorem names_passed_iff {fields : List Field} :
    (∀ name, (name ≠ "" ∧ ∃ field ∈ fields, field.name = name.toList) →
      name = "space" ∨ name = "entity_id") ↔ ∀ field ∈ fields, field.name ∈ passedNames := by
  simp only [passedNames, List.mem_cons, List.not_mem_nil, or_false]
  constructor
  · intro h field hfield
    by_cases hempty : field.name = []
    · exact .inl hempty
    have hchars : (String.ofList field.name).toList = field.name := String.toList_ofList
    have hname : String.ofList field.name ≠ "" := by
      intro hnil
      rw [hnil] at hchars
      exact hempty hchars.symm
    rcases h _ ⟨hname, field, hfield, hchars.symm⟩ with hspace | hid
    · exact .inr (.inl (by rw [← hchars, hspace]))
    · exact .inr (.inr (by rw [← hchars, hid]))
  · rintro h name ⟨hname, field, hfield, hchars⟩
    rcases h field hfield with hempty | hspace | hid
    · exact absurd (String.toList_eq_nil_iff.mp (hchars.symm.trans hempty)) hname
    · exact .inl (String.toList_injective (hchars.symm.trans hspace))
    · exact .inr (String.toList_injective (hchars.symm.trans hid))

/-- A template passes exactly if it can be read, none of its fields has another name than the two or
none at all, and both names occur. -/
theorem checkTemplate_eq_good_iff {template : String} :
    checkTemplate template = .good template ↔ ∃ fields, Template.fields template = .ok fields ∧
      (∀ field ∈ fields, field.name ∈ passedNames) ∧
      (∃ field ∈ fields, field.name = "space".toList) ∧ ∃ field ∈ fields, field.ShowsId := by
  rw [checkTemplate, Template.names]
  cases Template.fields template with
  | error fault => simp [bind, Except.bind, Checked.complain]
  | ok fields =>
    simp only [bind, Except.bind, pure, Except.pure, Bool.and_eq_true, List.all_eq_true,
      List.contains_iff_mem, mem_names_iff, List.mem_cons, List.not_mem_nil, or_false,
      names_passed_iff, Except.ok.injEq, exists_eq_left', forall_eq_or_imp, forall_eq]
    have hspace : "space" ≠ "" := by decide
    have hid : "entity_id" ≠ "" := by decide
    split_ifs with h
    · exact ⟨fun _ => ⟨h.1, h.2.1.2, h.2.2.2⟩, fun _ => rfl⟩
    · constructor
      · intro hgood
        cases hgood
      · intro hall
        exact absurd ⟨hall.1, ⟨hspace, hall.2.1⟩, hid, hall.2.2⟩ h

theorem eq_of_checkTemplate {template found : String} (h : checkTemplate template = .good found) :
    template = found := by
  unfold checkTemplate at h
  split at h
  · cases h
  · split at h
    · exact Checked.good.inj h
    · cases h

theorem checkTemplate_default :
    checkTemplate "\x7bspace\x7d:\x7bentity_id\x7d" = .good "\x7bspace\x7d:\x7bentity_id\x7d" :=
  checkTemplate_eq_good_iff.mpr
    ⟨[⟨"space".toList, none, [], false⟩, ⟨"entity_id".toList, none, [], false⟩], rfl, by decide,
      by decide, by decide⟩

/-- The candidates and the template of settings that were read are those of fields that passed their
checks. -/
theorem checked_of_read {env : Settings.Environment} {overrides : Table Json}
    {settings : ContentSettings} (h : read env overrides = .ok settings) :
    ∃ fields,
      Check.optional fields "space_field_candidates"
        ({} : ContentSettings).spaceFieldCandidates
        (fun value => (Check.listOf Check.text value).andThen checkCandidates) =
          .good settings.spaceFieldCandidates ∧
      Check.optional fields "document_id_template" ({} : ContentSettings).documentIdTemplate
        (fun value => (Check.text value).andThen checkTemplate) =
          .good settings.documentIdTemplate := by
  rw [read] at h
  cases hfields : Settings.given env heading names overrides with
  | error fault =>
    rw [hfields] at h
    cases h
  | ok fields =>
    rw [hfields] at h
    have hchecked : ofFields fields = .good settings := by
      cases hchecked : ofFields fields with
      | good found =>
        simp only [hchecked, bind, Except.bind, Checked.orMisfit, Except.ok.injEq] at h
        rw [h]
      | bad details => simp [hchecked, bind, Except.bind, Checked.orMisfit] at h
    simp only [ofFields, Checked.seqLeft_eq_good_iff, Checked.seq_eq_good_iff,
      Checked.map_eq_good_iff] at hchecked
    -- the template is the third field from behind, the candidates the fourth, and five stand in
    -- front of these
    obtain ⟨⟨_, _, ⟨_, _, ⟨_, template, ⟨_, candidates, ⟨_, _, ⟨_, _, ⟨_, _, ⟨_, _, ⟨_, -, rfl⟩, -,
      rfl⟩, -, rfl⟩, -, rfl⟩, -, rfl⟩, hcandidates, rfl⟩, htemplate, rfl⟩, -, rfl⟩, -, rfl⟩, -⟩ :=
      hchecked
    exact ⟨fields, hcandidates, htemplate⟩

/-- The template of settings that were read passes the check, and so does the one they have if none
is given. -/
theorem accepted_of_read {env : Settings.Environment} {overrides : Table Json}
    {settings : ContentSettings} (h : read env overrides = .ok settings) :
    checkTemplate settings.documentIdTemplate = .good settings.documentIdTemplate := by
  have hgiven : ∀ {value : Json} {template : String},
      (Check.text value).andThen checkTemplate = .good template →
        checkTemplate template = .good template := by
    intro value template h
    cases value with
    | text s =>
      have hcheck : checkTemplate s = .good template := h
      obtain rfl := eq_of_checkTemplate hcheck
      exact hcheck
    | _ => cases h
  obtain ⟨fields, -, htemplate⟩ := checked_of_read h
  rcases Check.optional_eq_good_iff.mp htemplate with ⟨-, hdefault⟩ | ⟨value, -, hvalue⟩
  · rw [← hdefault]
    exact checkTemplate_default
  · exact hgiven hvalue

/-! ### Storage ids -/

variable {settings : ContentSettings}

/-- A storage id is made exactly if each field of the template can be rendered. -/
theorem exists_documentId_iff {fields : List Field}
    (h : Template.fields settings.documentIdTemplate = .ok fields) (space id : String) :
    (∃ text, settings.documentId space id = .ok text) ↔ ∀ field ∈ fields, ∃ shown,
      renderField (renderNested (copyArguments space id) 1) (copyArguments space id) field =
        .ok shown := by
  rw [← exists_renderWithin_iff h, documentId, Template.render, renderNested, ← copyArguments,
    String.length_toList]
  cases renderWithin (renderNested (copyArguments space id) 1) (copyArguments space id)
    (settings.documentIdTemplate.length + 1) settings.documentIdTemplate.toList <;>
      simp [Except.map, Except.mapError]

/-! ### What the parts show -/

/-- The parts of a template that passes the check and whose layouts hold no fields. -/
structure PlainParts (settings : ContentSettings) (parts : List Part) : Prop where
  read : partsWithin (settings.documentIdTemplate.length + 1)
    settings.documentIdTemplate.toList = .ok parts
  passed : ∀ field ∈ Template.fieldsOf parts, field.name ∈ passedNames
  plain : ∀ field ∈ Template.fieldsOf parts, field.nested = false

section Parts

variable {parts : List Part} {views : List (List Char → List Char → List Char)}

theorem exists_views_iff :
    (∃ views, parts.mapM Part.copied = .ok views) ↔
      ∀ field ∈ Template.fieldsOf parts, field.Fits := by
  rw [exists_mapM_iff, forall_mem_fieldsOf_iff]
  simp only [Part.exists_copied_iff]

/-- A storage id consists of what the parts of the template show of the space and the id. -/
theorem PlainParts.documentId_eq (h : PlainParts settings parts) (space id : String) :
    settings.documentId space id =
      ((parts.mapM Part.copied).map fun views => String.ofList
        (views.flatMap fun view => view space.toList id.toList)).mapError Fault.ofTemplate := by
  have hrendered : parts.mapM (Part.rendered (renderNested (copyArguments space id) 1)
      (copyArguments space id)) =
        (parts.mapM Part.copied).map (List.map fun view => view space.toList id.toList) := by
    refine mapM_eq_map_mapM fun part hpart => ?_
    exact rendered_eq (forall_mem_fieldsOf_iff.mp h.passed part hpart)
      (forall_mem_fieldsOf_iff.mp h.plain part hpart)
  rw [documentId, Template.render, renderNested, ← copyArguments, String.length_toList,
    renderWithin_of_parts h.read, hrendered]
  cases parts.mapM Part.copied with
  | error fault => rfl
  | ok views => simp [Except.map, Except.mapError, List.flatMap]

theorem PlainParts.documentId_of_views (h : PlainParts settings parts)
    (hviews : parts.mapM Part.copied = .ok views) (space id : String) :
    settings.documentId space id =
      .ok (String.ofList (views.flatMap fun view => view space.toList id.toList)) := by
  rw [h.documentId_eq, hviews]
  rfl

/-- Storage ids are made for all spaces and ids if all fields fit, and for none if one does not. -/
theorem PlainParts.never_made (h : PlainParts settings parts)
    (hmisfit : ∃ field ∈ Template.fieldsOf parts, ¬field.Fits) :
    ∃ fault, ∀ space id, settings.documentId space id = .error fault := by
  obtain ⟨field, hfield, hmisfit⟩ := hmisfit
  cases hviews : parts.mapM Part.copied with
  | error fault =>
    refine ⟨Fault.ofTemplate fault, fun space id => ?_⟩
    rw [h.documentId_eq, hviews]
    rfl
  | ok views => exact absurd (exists_views_iff.mp ⟨views, hviews⟩ field hfield) hmisfit

theorem PlainParts.always_made_iff (h : PlainParts settings parts) :
    (∀ space id, ∃ text, settings.documentId space id = .ok text) ↔
      ∀ field ∈ Template.fieldsOf parts, field.Fits := by
  constructor
  · intro hmade field hfield
    by_contra hmisfit
    obtain ⟨fault, hnever⟩ := h.never_made ⟨field, hfield, hmisfit⟩
    obtain ⟨text, htext⟩ := hmade "" ""
    rw [hnever] at htext
    cases htext
  · intro hfits space id
    obtain ⟨views, hviews⟩ := exists_views_iff.mpr hfits
    exact ⟨_, h.documentId_of_views hviews space id⟩

/-- If no field cuts the id or fills it up, the parts tell it. -/
theorem eq_of_views (hviews : parts.mapM Part.copied = .ok views)
    (hwhole : ∀ field ∈ Template.fieldsOf parts, field.ShowsId → field.Whole)
    (hsome : ∃ field ∈ Template.fieldsOf parts, field.ShowsId) {space cs ds : List Char}
    (h : views.flatMap (· space cs) = views.flatMap (· space ds)) : cs = ds := by
  refine eq_of_flatMap_eq (fun view hview => ?_) ?_ h
  · -- a view is that of a part, which tells the id or shows the same of all ids
    obtain ⟨part, hpart, hcopied⟩ := exists_of_mem_mapM hviews hview
    by_cases hid : ∃ field, part.field = some field ∧ field.ShowsId
    · obtain ⟨field, hfield, hid⟩ := hid
      exact .inr (Part.telling_copied hfield hid
        (hwhole field (mem_fieldsOf.mpr ⟨part, hpart, hfield⟩) hid) hcopied space)
    · exact .inl (Part.fixed_copied (fun field hfield hshows => hid ⟨field, hfield, hshows⟩)
        hcopied space)
  · obtain ⟨field, hmem, hid⟩ := hsome
    obtain ⟨part, hpart, hfield⟩ := mem_fieldsOf.mp hmem
    obtain ⟨view, hview, hcopied⟩ := exists_of_mapM_eq_ok hviews hpart
    exact ⟨view, hview, Part.telling_copied hfield hid (hwhole field hmem hid) hcopied space⟩

/-- Two ids that the fields show alike are not told by the parts. -/
theorem views_eq_of_shows (hviews : parts.mapM Part.copied = .ok views) {cs ds : List Char}
    (hsame : ∀ field ∈ Template.fieldsOf parts, field.ShowsId → ∀ shows,
      field.shows = .ok shows → shows cs = shows ds) (space : List Char) :
    views.flatMap (· space cs) = views.flatMap (· space ds) := by
  refine List.flatMap_congr fun view hview => ?_
  obtain ⟨part, hpart, hcopied⟩ := exists_of_mem_mapM hviews hview
  by_cases hid : ∃ field, part.field = some field ∧ field.ShowsId
  · obtain ⟨field, hfield, hid⟩ := hid
    obtain ⟨shows, hshows, rfl⟩ := Part.copied_of_field hfield hcopied
    simp only [hid, if_true]
    rw [hsame field (mem_fieldsOf.mpr ⟨part, hpart, hfield⟩) hid shows hshows]
  · exact Part.fixed_copied (fun field hfield hshows => hid ⟨field, hfield, hshows⟩) hcopied space
      cs ds

theorem PlainParts.told (h : PlainParts settings parts)
    (hsome : ∃ field ∈ Template.fieldsOf parts, field.ShowsId)
    (hfits : ∀ field ∈ Template.fieldsOf parts, field.Fits)
    (hwhole : ∀ field ∈ Template.fieldsOf parts, field.ShowsId → field.Whole)
    {space id other : String}
    (hsame : settings.documentId space id = settings.documentId space other) : id = other := by
  obtain ⟨views, hviews⟩ := exists_views_iff.mpr hfits
  rw [h.documentId_of_views hviews, h.documentId_of_views hviews] at hsame
  exact String.toList_injective
    (eq_of_views hviews hwhole hsome (String.ofList_injective (Except.ok.inj hsame)))

/-- Where all fields with the id are the same one without quotes, and it is not whole, there are ids
with the same storage id. -/
theorem PlainParts.exists_same (h : PlainParts settings parts)
    (hfits : ∀ field ∈ Template.fieldsOf parts, field.Fits) {own : Field}
    (hown : own ∈ Template.fieldsOf parts) (hunquoted : own.conversion ∈ [none, some 's'])
    (hone : ∀ field ∈ Template.fieldsOf parts, field.ShowsId → field = own)
    (hpart : ¬own.Whole) (space : String) :
    ∃ id other, id ≠ other ∧ settings.documentId space id = settings.documentId space other := by
  obtain ⟨-, shows, hshows⟩ := Field.fits_iff.mp (hfits own hown)
  obtain ⟨cs, ds, hne, hsame⟩ := Field.exists_same hunquoted hshows hpart
  obtain ⟨views, hviews⟩ := exists_views_iff.mpr hfits
  have halike : ∀ field ∈ Template.fieldsOf parts, field.ShowsId → ∀ found,
      field.shows = .ok found → found cs = found ds := by
    intro field hfield hid found hfound
    obtain rfl := hone field hfield hid
    obtain rfl : shows = found := Except.ok.inj (hshows.symm.trans hfound)
    exact hsame
  refine ⟨String.ofList cs, String.ofList ds, fun heq => hne (String.ofList_injective heq), ?_⟩
  rw [h.documentId_of_views hviews, h.documentId_of_views hviews, String.toList_ofList,
    String.toList_ofList, views_eq_of_shows hviews halike space.toList]

end Parts

/-! ### Templates that are told by their fields -/

/-- What the fields of a template are to be like for storage ids to be made, and to be told apart.
-/
structure StorageIds (settings : ContentSettings) (fields : List Field) : Prop where
  /-- A storage id is made exactly if all fields can be rendered. -/
  made_iff : ∀ space id, (∃ text, settings.documentId space id = .ok text) ↔
    ∀ field ∈ fields, ∃ shown, renderField (renderNested (copyArguments space id) 1)
      (copyArguments space id) field = .ok shown
  /-- Where no layout holds fields, it is made for all spaces and ids exactly if each field has a
  name, a conversion that exists and a layout for texts. -/
  always_made_iff : (∀ field ∈ fields, field.nested = false) →
    ((∀ space id, ∃ text, settings.documentId space id = .ok text) ↔ ∀ field ∈ fields, field.Fits)
  /-- If it is not made for all of them, it is made for none. -/
  never_made : (∀ field ∈ fields, field.nested = false) → (∃ field ∈ fields, ¬field.Fits) →
    ∃ fault, ∀ space id, settings.documentId space id = .error fault
  /-- Different ids have different storage ids if no field cuts the id or fills it up. -/
  told : (∀ field ∈ fields, field.nested = false) → (∀ field ∈ fields, field.Fits) →
    (∀ field ∈ fields, field.ShowsId → field.Whole) → ∀ space id other,
      settings.documentId space id = settings.documentId space other → id = other
  /-- In a template that shows the id in one way only and without quotes, that is what it takes. -/
  told_iff : (∀ field ∈ fields, field.nested = false) → (∀ field ∈ fields, field.Fits) →
    ∀ own ∈ fields, own.ShowsId → own.conversion ∈ [none, some 's'] →
      (∀ field ∈ fields, field.ShowsId → field = own) → ∀ space,
        (∀ id other, settings.documentId space id = settings.documentId space other → id = other) ↔
          own.Whole

/-- Of a template that passes the check, its fields say whether storage ids are made and whether
they differ. -/
theorem storage_ids
    (h : checkTemplate settings.documentIdTemplate = .good settings.documentIdTemplate) :
    ∃ fields, Template.fields settings.documentIdTemplate = .ok fields ∧
      StorageIds settings fields := by
  obtain ⟨fields, hfields, hnames, -, hsome⟩ := checkTemplate_eq_good_iff.mp h
  obtain ⟨parts, hparts, rfl⟩ := exists_parts hfields
  have hplain : (∀ field ∈ Template.fieldsOf parts, field.nested = false) →
      PlainParts settings parts := fun hnested => ⟨hparts, hnames, hnested⟩
  exact
    ⟨_, hfields,
      { made_iff := exists_documentId_iff hfields
        always_made_iff := fun hnested => (hplain hnested).always_made_iff
        never_made := fun hnested => (hplain hnested).never_made
        told := fun hnested hfits hwhole _ _ _ => (hplain hnested).told hsome hfits hwhole
        told_iff := by
          intro hnested hfits own hown hid hunquoted hone space
          constructor
          · intro htold
            by_contra hpart
            obtain ⟨id, other, hne, hsame⟩ :=
              (hplain hnested).exists_same hfits hown hunquoted hone hpart space
            exact hne (htold id other hsame)
          · intro hwhole id other
            refine (hplain hnested).told hsome hfits fun field hfield hid => ?_
            rwa [hone field hfield hid] }⟩

/-! A field without a name passes the check, and so does one that cuts the id. -/

def emptyFieldSettings : ContentSettings :=
  { documentIdTemplate := "\x7bspace\x7d:\x7bentity_id\x7d\x7b\x7d" }

def cutIdSettings : ContentSettings :=
  { documentIdTemplate := "\x7bspace\x7d:\x7bentity_id:.1\x7d" }

def spaceField : Field := ⟨"space".toList, none, [], false⟩

def cutIdField : Field := ⟨"entity_id".toList, none, ".1".toList, false⟩

theorem storage_ids_cutId :
    (∃ fault, ∀ space id, emptyFieldSettings.documentId space id = .error fault) ∧
      ∀ space, ¬∀ id other,
        cutIdSettings.documentId space id = cutIdSettings.documentId space other → id = other := by
  constructor
  · have hread : Template.fields emptyFieldSettings.documentIdTemplate =
        .ok [spaceField, ⟨"entity_id".toList, none, [], false⟩, ⟨[], none, [], false⟩] := by rfl
    obtain ⟨fields, hfields, h⟩ := @storage_ids emptyFieldSettings
      (checkTemplate_eq_good_iff.mpr ⟨_, hread, by decide, by decide, by decide⟩)
    obtain rfl := Except.ok.inj (hread.symm.trans hfields)
    refine h.never_made (by decide) ⟨⟨[], none, [], false⟩, by decide, fun hfits => ?_⟩
    exact hfits.named rfl
  · intro space htold
    have hread : Template.fields cutIdSettings.documentIdTemplate =
        .ok [spaceField, cutIdField] := by rfl
    obtain ⟨fields, hfields, h⟩ := @storage_ids cutIdSettings
      (checkTemplate_eq_good_iff.mpr ⟨_, hread, by decide, by decide, by decide⟩)
    obtain rfl := Except.ok.inj (hread.symm.trans hfields)
    have hlayout : layoutOf ".1".toList = .ok { precision := some 1 } := by rfl
    have hfits : ∀ field ∈ [spaceField, cutIdField], field.Fits := by
      intro field hfield
      simp only [List.mem_cons, List.not_mem_nil, or_false] at hfield
      rcases hfield with rfl | rfl
      · exact ⟨by decide, by decide, _, rfl⟩
      · exact ⟨by decide, by decide, _, hlayout⟩
    obtain ⟨layout, hfound, hprecision, -⟩ :=
      (h.told_iff (by decide) hfits cutIdField (by decide) (by decide) (by decide) (by decide)
        space).mp htold
    rw [← Except.ok.inj (hlayout.symm.trans hfound)] at hprecision
    cases hprecision

end ContentSettings

end Lifecycle
