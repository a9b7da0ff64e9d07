import Lifecycle.Proofs.Copies

/-!
# Bodies of copies

The body of a copy belongs to the space it is made for and to no other (`belongs_successorBody`),
has the id of its source (`idOf_successorBody`), and its document is that of the source but for the
space that it may name (`documentOf_successorBody`). So it fits the place of the copy in an orderly
index (`fits_successorBody`), and it has the content hash of its source (`hash_successorBody`).

The views that a scan may have of a body keep its id, or its document.
-/

namespace Lifecycle

theorem Space.name_injective {space other : Space} (h : space.name = other.name) :
    space = other := by
  cases space <;> cases other <;> first | rfl | exact absurd h (by decide)

namespace Content

variable {body fields document : Table Json} {space target : Space}

/-! ### Relabelling -/

/-- Whether a body belongs to a space is said by the object under its key `space`. -/
theorem belongs_eq (hspace : body.get? "space" = some (.object fields)) :
    Scope.belongs space body =
      (fields.get? "name").any (Query.holdsValue · (.text space.name)) := by
  rw [Scope.belongs]
  cases hname : Table.get? fields "name" with
  | none => simp [Query.at?, hspace, hname]
  | some label => simp [Query.at?, hspace, hname]

theorem exists_space (h : Scope.belongs space body = true) :
    ∃ fields, body.get? "space" = some (.object fields) := by
  unfold Scope.belongs at h
  cases hspace : Table.get? body "space" with
  | none => simp [Query.at?, hspace] at h
  | some label =>
    cases label with
    | object fields => exact ⟨fields, rfl⟩
    | _ => simp [Query.at?, hspace] at h

/-- A body that names a space by its text belongs to that space only. -/
theorem belongs_iff_of_name (hspace : body.get? "space" = some (.object fields))
    (hname : fields.get? "name" = some (.text target.name)) :
    Scope.belongs space body = true ↔ space = target := by
  have hsame : Query.holdsValue (.text target.name) (.text space.name) =
      (target.name == space.name) := rfl
  rw [belongs_eq hspace, hname, Option.any_some, hsame, beq_iff_eq]
  exact ⟨fun h => (Space.name_injective h).symm, fun h => by rw [h]⟩

theorem get?_relabelledField_of_ne {key : String} (hkey : key ≠ "space") (name : String) :
    (relabelledField fields name).get? key = fields.get? key := by
  unfold relabelledField
  cases fields.get? "space" with
  | none => rfl
  | some label => rw [Table.get?_put, if_neg hkey.symm]

theorem relabelledField_of_none (h : fields.get? "space" = none) (name : String) :
    relabelledField fields name = fields := by
  rw [relabelledField, h]

theorem relabelledField_of_some {label : Json} (h : fields.get? "space" = some label)
    (name : String) :
    relabelledField fields name = fields.put "space" (labelled label name) := by
  rw [relabelledField, h]

/-- What stands in the place of a document is an object or is not. -/
theorem object_or_plain (body : Table Json) :
    (∃ document, body.get? "document" = some (.object document)) ∨
      ∀ document, body.get? "document" ≠ some (.object document) :=
  (em _).imp_right not_exists.mp

/-- Relabelling a body in its document is relabelling the document. -/
theorem relabelledWithin_of_object (h : body.get? "document" = some (.object document))
    (name : String) :
    relabelledWithin body name = body.put "document" (.object (relabelledField document name)) := by
  rw [relabelledWithin, h]
  dsimp only
  split
  · rfl
  · rename_i hnone
    rw [Table.has, Bool.not_eq_true, Option.isSome_eq_false_iff, Option.isNone_iff_eq_none] at hnone
    rw [relabelledField_of_none hnone, Table.put_eq_self h]

theorem relabelledWithin_of_plain
    (h : ∀ document, body.get? "document" ≠ some (.object document)) (name : String) :
    relabelledWithin body name = body := by
  rw [relabelledWithin]
  split
  · rename_i document hdocument
    exact absurd hdocument (h document)
  · rfl

theorem relabelled_of_assigned (h : isAssigned body = true) (name : String) :
    relabelled body name = relabelledWithin (relabelledField body name) name := by
  rw [relabelled, if_pos h]

theorem relabelled_of_unassigned (h : isAssigned body = false) (name : String) :
    relabelled body name = body.put "space" (.object [("name", .text name)]) := by
  rw [relabelled, h]
  rfl

/-- Relabelling does not change what stands under other keys. -/
theorem filter_relabelledField (document : Table Json) (name : String)
    {p : String × Json → Bool} (h : ∀ value, p ("space", value) = false) :
    (relabelledField document name).filter p = document.filter p := by
  unfold relabelledField
  cases document.get? "space" with
  | none => rfl
  | some label => exact Table.filter_put document "space" _ p (h _) fun value _ => h value

theorem substance_relabelledField (document : Table Json) (name : String)
    (excluded : List String) :
    substance (relabelledField document name) excluded = substance document excluded :=
  filter_relabelledField document name fun value => by simp [volatileKeys]

theorem hash_relabelledField (document : Table Json) (name : String) (excluded : List String) :
    hash (relabelledField document name) excluded = hash document excluded := by
  rw [hash, hash, canonicalText, canonicalText, substance_relabelledField]

theorem get?_relabelledWithin_of_ne {key : String} (hkey : key ≠ "document") (name : String) :
    (relabelledWithin body name).get? key = body.get? key := by
  rw [relabelledWithin]
  split
  · split
    · rw [Table.get?_put, if_neg hkey.symm]
    · rfl
  · rfl

/-- What stands under other keys than those of the label and the document is not changed. -/
theorem get?_relabelled_of_ne {key : String} (hspace : key ≠ "space") (hdocument : key ≠ "document")
    (name : String) : (relabelled body name).get? key = body.get? key := by
  cases hassigned : isAssigned body with
  | true =>
    rw [relabelled_of_assigned hassigned, get?_relabelledWithin_of_ne hdocument,
      get?_relabelledField_of_ne hspace]
  | false => rw [relabelled_of_unassigned hassigned, Table.get?_put, if_neg hspace.symm]

/-- The space of a body that is relabelled has the new name. -/
theorem get?_space_relabelled (hspace : body.get? "space" = some (.object fields))
    (name : String) :
    (relabelled body name).get? "space" = some (.object (fields.put "name" (.text name))) := by
  have hassigned : isAssigned body = true := by
    simp [isAssigned, Table.has, hspace]
  rw [relabelled_of_assigned hassigned, get?_relabelledWithin_of_ne (by decide),
    relabelledField_of_some hspace, Table.get?_put, if_pos rfl]
  rfl

/-- The document of a body that is relabelled is relabelled as a field. -/
theorem get?_document_relabelled (hdocument : body.get? "document" = some (.object document))
    (name : String) :
    (relabelled body name).get? "document" = some (.object (relabelledField document name)) := by
  cases hassigned : isAssigned body with
  | true =>
    have hfield : (relabelledField body name).get? "document" = some (.object document) := by
      rw [get?_relabelledField_of_ne (by decide), hdocument]
    rw [relabelled_of_assigned hassigned, relabelledWithin_of_object hfield, Table.get?_put,
      if_pos rfl]
  | false =>
    have hnone : document.get? "space" = none := by
      rw [isAssigned, assignedWithin, hdocument, Bool.or_eq_false_iff] at hassigned
      simpa [Table.has] using hassigned.2
    rw [relabelled_of_unassigned hassigned, Table.get?_put, if_neg (by decide), hdocument,
      relabelledField_of_none hnone]

/-! ### Bodies of copies -/

variable {source : Table Json}

theorem get?_space_successorBody (hspace : source.get? "space" = some (.object fields))
    (target : Space) :
    (Commit.successorBody source target).get? "space" =
      some (.object (fields.put "name" (.text target.name))) := by
  rw [Commit.successorBody, Table.get?_put, if_neg (by decide), get?_space_relabelled hspace]

/-- A copy belongs to the space it is made for and to no other. -/
theorem belongs_successorBody (h : Scope.belongs space source = true) (other : Space) :
    Scope.belongs other (Commit.successorBody source target) = true ↔ other = target := by
  obtain ⟨fields, hspace⟩ := exists_space h
  apply belongs_iff_of_name (get?_space_successorBody hspace target)
  rw [Table.get?_put, if_pos rfl]

theorem get?_document_successorBody (h : idOf source ≠ "") (target : Space) :
    (Commit.successorBody source target).get? "document" =
      some (.object (relabelledField (Commit.documentOf source) target.name)) := by
  rw [Commit.successorBody, Table.get?_put, if_neg (by decide),
    get?_document_relabelled (exists_document h).1]

/-- The document of a copy is that of its source but for the space. -/
theorem documentOf_successorBody (h : idOf source ≠ "") (target : Space) :
    Commit.documentOf (Commit.successorBody source target) =
      relabelledField (Commit.documentOf source) target.name := by
  rw [Commit.documentOf, Json.under, get?_document_successorBody h target]
  rfl

theorem idOf_successorBody (h : idOf source ≠ "") (target : Space) :
    idOf (Commit.successorBody source target) = idOf source := by
  have hid : Query.at? (.object (Commit.successorBody source target)) ["document", "id"] =
      some (.text (idOf source)) := by
    simp [Query.at?, get?_document_successorBody h target,
      get?_relabelledField_of_ne (show "id" ≠ "space" by decide), (exists_document h).2]
  rw [idOf, hid]

/-- A copy has the content of its source. -/
theorem hash_successorBody (h : idOf source ≠ "") (target : Space) :
    hash (Commit.documentOf (Commit.successorBody source target)) [] =
      hash (Commit.documentOf source) [] := by
  rw [documentOf_successorBody h target, hash_relabelledField]

/-- The body of a copy fits the place of the copy. -/
theorem fits_successorBody {id : String} (hid : id ≠ "") (h : isCopy space id source = true) :
    Documents.Fits target id (Commit.successorBody source target) := by
  obtain ⟨hbelongs, rfl⟩ := (isCopy_iff space id source).mp h
  refine ⟨hid, ?_, fun other => (belongs_successorBody hbelongs other).mp⟩
  rw [isCopy_iff]
  exact ⟨(belongs_successorBody hbelongs target).mpr rfl, idOf_successorBody hid target⟩

/-! ### Small indexes -/

theorem orderly_nil : Documents.Orderly [] := by
  refine ⟨Table.Distinct.nil, ?_, ?_, ?_, ?_⟩ <;> simp

/-- One document that names a space and an entity is an orderly index, if its storage id is none
that is made for a copy. -/
theorem orderly_singleton (target : Space) {key : String} (hid : idOf body ≠ "")
    (hspace : body.get? "space" = some (.object fields))
    (hname : fields.get? "name" = some (.text target.name)) (hkey : ':' ∉ key.toList) :
    Documents.Orderly [(key, body)] := by
  have hone : ∀ other, Scope.belongs other body = true → other = target :=
    fun other => (belongs_iff_of_name hspace hname).mp
  constructor
  · exact List.nodup_singleton key
  · intro entry hmem
    rw [List.mem_singleton.mp hmem]
    exact hid
  · intro entry hmem a b ha hb
    rw [List.mem_singleton.mp hmem] at ha hb
    rw [hone a ha, hone b hb]
  · intro entry hmem other hother a name _ _
    rw [List.mem_singleton.mp hmem, List.mem_singleton.mp hother]
  · intro entry hmem a name hplace
    rw [List.mem_singleton.mp hmem] at hplace
    exact absurd hplace (documentId_ne a name hkey)

/-! ### Views of bodies -/

/-- The part of a body that is read for its document. -/
def documentView (body : Table Json) : Table Json := Query.partsAt body ["document"]

/-- The part of a body that is read for the id. -/
def idView (body : Table Json) : Table Json := Query.partsAt body ["document.id"]

theorem projected_document (body : Table Json) :
    Query.projected (Json.texts ["document"]) body = .ok (documentView body) := rfl

theorem projected_id (body : Table Json) :
    Query.projected (Json.texts ["document.id"]) body = .ok (idView body) := rfl

theorem documentView_eq (h : idOf body ≠ "") :
    documentView body = [("document", .object (Commit.documentOf body))] := by
  have hpath : Text.split '.' "document" = ["document"] := by decide
  simp [documentView, Query.partsAt, hpath, Query.withPart, Query.at?, (exists_document h).1,
    Query.place, Table.put]

theorem documentOf_documentView (h : idOf body ≠ "") :
    Commit.documentOf (documentView body) = Commit.documentOf body := by
  rw [documentView_eq h]
  rfl

theorem idOf_documentView (h : idOf body ≠ "") : idOf (documentView body) = idOf body := by
  have hid : Query.at? (.object (documentView body)) ["document", "id"] =
      some (.text (idOf body)) := by
    rw [documentView_eq h]
    simp [Query.at?, Table.get?, (exists_document h).2]
  rw [idOf, hid]

theorem idOf_idView (h : idOf body ≠ "") : idOf (idView body) = idOf body := by
  have hpath : Text.split '.' "document.id" = ["document", "id"] := by decide
  have hview : idView body = [("document", .object [("id", .text (idOf body))])] := by
    simp [idView, Query.partsAt, hpath, Query.withPart, at?_id h, Query.place, Table.put]
  rw [hview]
  rfl

end Content

end Lifecycle
