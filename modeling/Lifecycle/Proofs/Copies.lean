import Mathlib.Data.List.Induction
import Lifecycle.Promotion.Commit
import Lifecycle.Proofs.Scoping
import Lifecycle.Proofs.Table

/-!
# Copies of entities in an index

A document of an index is a *copy* of an entity in a space if it belongs to the space and has the id
of the entity (`Content.isCopy`). An index is *orderly* (`Documents.Orderly`) when each of its
documents has an id and belongs to one space at most, when no space has two copies of an entity, and
when a storage id that is made for a copy is that of no other document.

What is written and removed in an orderly index is said by three things: it stays orderly, the
documents that it is not about stay as they are (`Documents.others`), and what copies there are of
those it is about (`Documents.copyOf?`). A step of a commit puts or removes one copy
(`Orderly.put_copy`, `Orderly.remove`); by induction a whole pass over distinct ids puts or removes
them all (`putCopies_changed`, `removeCopies_changed`).
-/

namespace Lifecycle

/-! ### Ids of stored bodies -/

namespace Content

/-- The id of the entity in a stored body, empty if it is no text. -/
def idOf (body : Table Json) : String :=
  match Query.at? (.object body) ["document", "id"] with
  | some (.text id) => id
  | _ => ""

/-- Whether a stored body is a copy of an entity in a space. -/
def isCopy (space : Space) (id : String) (body : Table Json) : Bool :=
  Scope.belongs space body && idOf body == id

theorem isCopy_iff (space : Space) (id : String) (body : Table Json) :
    isCopy space id body = true ↔ Scope.belongs space body = true ∧ idOf body = id := by
  rw [isCopy, Bool.and_eq_true, beq_iff_eq]

/-- A body that has an id has a document with it. -/
theorem exists_document {body : Table Json} (h : idOf body ≠ "") :
    body.get? "document" = some (.object (Commit.documentOf body)) ∧
      (Commit.documentOf body).get? "id" = some (.text (idOf body)) := by
  rw [Commit.documentOf, Json.under]
  unfold idOf at h ⊢
  cases hdocument : Table.get? body "document" with
  | none =>
    simp [Query.at?, hdocument] at h
  | some document =>
    cases document with
    | object fields =>
      cases hid : Table.get? fields "id" with
      | none => simp [Query.at?, hdocument, hid] at h
      | some id =>
        cases id with
        | text id => simp [Query.at?, hdocument, hid]
        | _ => simp [Query.at?, hdocument, hid] at h
    | _ => simp [Query.at?, hdocument] at h

theorem at?_id {body : Table Json} (h : idOf body ≠ "") :
    Query.at? (.object body) ["document", "id"] = some (.text (idOf body)) := by
  obtain ⟨hdocument, hid⟩ := exists_document h
  simp [Query.at?, hdocument, hid]

/-- The fields of a document that is an object are read, also where it is empty. -/
theorem documentFields_of_object {body document : Table Json}
    (h : body.get? "document" = some (.object document)) : documentFields body = .ok document := by
  rw [documentFields, documentValue, Json.under, h]
  cases document <;> rfl

/-- What is read is a document that is an object, or nothing. -/
theorem document_of_documentFields {body fields : Table Json}
    (h : documentFields body = .ok fields) :
    body.get? "document" = some (.object fields) ∨ fields = [] := by
  rw [documentFields, documentValue, Json.under, Json.given?] at h
  cases hdocument : Table.get? body "document" with
  | none =>
    rw [hdocument] at h
    cases h
    exact .inr rfl
  | some value =>
    rw [hdocument, Option.getD_some] at h
    by_cases hgiven : value.truthy = true
    · rw [if_pos hgiven] at h
      cases value with
      | object document =>
        cases h
        exact .inl rfl
      | _ => cases h
    · rw [if_neg hgiven] at h
      cases h
      exact .inr rfl

theorem documentFields_of_id {body : Table Json} (h : idOf body ≠ "") :
    documentFields body = .ok (Commit.documentOf body) :=
  documentFields_of_object (exists_document h).1

theorem under_id {body : Table Json} (h : idOf body ≠ "") :
    (Json.under (Commit.documentOf body) "id").given? = some (.text (idOf body)) := by
  rw [Json.under, (exists_document h).2]
  simp [Json.given?, Json.truthy, h]

theorem entityId?_eq {body : Table Json} (h : idOf body ≠ "") :
    entityId? body = .ok (some (.text (idOf body))) := by
  rw [entityId?, documentFields_of_id h]
  show Except.ok (Json.under (Commit.documentOf body) "id").given? = _
  rw [under_id h]

/-- A body has one of some ids if its id is among them. -/
theorem hasIdAmong_eq {body : Table Json} (h : idOf body ≠ "") (ids : List String) :
    Scope.hasIdAmong ids body = ids.contains (idOf body) := by
  rw [Scope.hasIdAmong, at?_id h, Option.any_some, List.contains_eq_any_beq]
  rfl

end Content

/-! ### Orderly indexes -/

/-- The storage id that is made for the copy of an entity in a space. -/
def renderedId (space : Space) (id : String) : String := space.name ++ ":" ++ id

/-- The template of the default settings puts a colon between space and id. -/
theorem documentId_default (space id : String) :
    ({} : ContentSettings).documentId space id = .ok (space ++ ":" ++ id) := by
  have hrender : Text.Template.renderNested [("space", space), ("entity_id", id)] 2
      ({} : ContentSettings).documentIdTemplate.toList =
        .ok (space.toList ++ (':' :: (id.toList ++ []))) := rfl
  rw [ContentSettings.documentId, Text.Template.render, hrender]
  simp only [Except.map, Except.mapError]
  congr 1
  apply String.toList_injective
  simp

theorem documentId_eq (space : Space) (id : String) :
    ({} : ContentSettings).documentId space.name id = .ok (renderedId space id) :=
  documentId_default space.name id

/-- A storage id without a colon is made for no copy. -/
theorem documentId_ne {key : String} (space : Space) (id : String) (hkey : ':' ∉ key.toList) :
    ({} : ContentSettings).documentId space.name id ≠ .ok key := by
  intro hplace
  rw [documentId_eq] at hplace
  have hrendered : key = renderedId space id := (Except.ok.inj hplace).symm
  exact hkey (by rw [hrendered, renderedId]; simp)

/-- A storage id that is made for a copy tells the space and the entity. -/
theorem renderedId_injective {space other : Space} {id name : String}
    (h : renderedId space id = renderedId other name) : space = other ∧ id = name := by
  have hlist : space.name.toList ++ ':' :: id.toList = other.name.toList ++ ':' :: name.toList := by
    simpa [renderedId] using congrArg String.toList h
  have hnames : space = other ∧ id.toList = name.toList := by
    cases space <;> cases other <;> simp_all [Space.name]
  exact ⟨hnames.1, String.toList_injective hnames.2⟩

namespace Documents

/-- An index of entities that copies can be written to: every document has an id and at most one
space, a space has at most one copy of an entity, and what stands under a storage id that is made
for a copy is that copy. -/
structure Orderly (docs : Documents) : Prop where
  distinct : Table.Distinct docs
  identified : ∀ entry ∈ docs, Content.idOf entry.2 ≠ ""
  oneSpace : ∀ entry ∈ docs, ∀ a b, Scope.belongs a entry.2 = true →
    Scope.belongs b entry.2 = true → a = b
  oneCopy : ∀ entry ∈ docs, ∀ other ∈ docs, ∀ space id, Content.isCopy space id entry.2 = true →
    Content.isCopy space id other.2 = true → entry = other
  placed : ∀ entry ∈ docs, ∀ space id,
    ({} : ContentSettings).documentId space.name id = .ok entry.1 →
      Content.isCopy space id entry.2 = true

/-- The copy of an entity in a space, with its storage id. -/
def copyOf? (docs : Documents) (space : Space) (id : String) : Option Query.Entry :=
  docs.find? fun entry => Content.isCopy space id entry.2

/-- The storage id for a copy: that of the copy that is there, else the one that is made for it. -/
def placeOf (docs : Documents) (space : Space) (id : String) : String :=
  match docs.copyOf? space id with
  | some entry => entry.1
  | none => renderedId space id

/-- The documents that are no copies of some entities in a space. -/
def others (docs : Documents) (space : Space) (ids : List String) : Documents :=
  docs.filter fun entry => !(Scope.belongs space entry.2 && ids.contains (Content.idOf entry.2))

variable {docs later : Documents} {space : Space} {id : String}

theorem mem_others (docs : Documents) (space : Space) (ids : List String) (entry : Query.Entry) :
    entry ∈ docs.others space ids ↔
      entry ∈ docs ∧ ¬(Scope.belongs space entry.2 = true ∧ Content.idOf entry.2 ∈ ids) := by
  rw [others, List.mem_filter, Bool.not_eq_true', ← Bool.not_eq_true, Bool.and_eq_true,
    List.contains_iff_mem]

/-- The documents that are not about ids in two lists. -/
theorem others_append (docs : Documents) (space : Space) (ids more : List String) :
    docs.others space (ids ++ more) = (docs.others space ids).others space more := by
  rw [others, others, others, List.filter_filter]
  apply List.filter_congr
  intro entry _
  cases Scope.belongs space entry.2
  · rfl
  · simp [Bool.and_comm]

theorem others_congr (docs : Documents) (space : Space) {ids more : List String}
    (h : ∀ id, id ∈ ids ↔ id ∈ more) : docs.others space ids = docs.others space more := by
  apply List.filter_congr
  intro entry _
  have hcontains : ids.contains (Content.idOf entry.2) = more.contains (Content.idOf entry.2) := by
    rw [Bool.eq_iff_iff, List.contains_iff_mem, List.contains_iff_mem, h]
  rw [hcontains]

/-! ### Copies in an orderly index -/

theorem copyOf?_mem {entry : Query.Entry} (h : docs.copyOf? space id = some entry) :
    entry ∈ docs ∧ Content.isCopy space id entry.2 = true :=
  ⟨List.mem_of_find?_eq_some h, by simpa using List.find?_some h⟩

theorem copyOf?_eq_none_iff :
    docs.copyOf? space id = none ↔ ∀ entry ∈ docs, ¬Content.isCopy space id entry.2 = true := by
  rw [copyOf?, List.find?_eq_none]

namespace Orderly

variable (h : docs.Orderly)

include h

/-- The copy that is found is the only one there is. -/
theorem copyOf?_eq_some_iff (entry : Query.Entry) :
    docs.copyOf? space id = some entry ↔
      entry ∈ docs ∧ Content.isCopy space id entry.2 = true := by
  refine ⟨copyOf?_mem, fun ⟨hmem, hcopy⟩ => ?_⟩
  cases hfound : docs.copyOf? space id with
  | none => exact absurd hcopy (copyOf?_eq_none_iff.mp hfound entry hmem)
  | some other =>
    obtain ⟨hother, hcopy'⟩ := copyOf?_mem hfound
    rw [h.oneCopy other hother entry hmem space id hcopy' hcopy]

/-- What stands under the storage id of a copy is that copy. -/
theorem isCopy_of_place {body : Table Json} (hmem : (docs.placeOf space id, body) ∈ docs) :
    Content.isCopy space id body = true := by
  unfold placeOf at hmem
  cases hfound : docs.copyOf? space id with
  | none =>
    rw [hfound] at hmem
    exact h.placed _ hmem space id (documentId_eq space id)
  | some entry =>
    rw [hfound] at hmem
    obtain ⟨hentry, hcopy⟩ := copyOf?_mem hfound
    have heq := List.inj_on_of_nodup_map h.distinct hmem hentry rfl
    rw [← heq] at hcopy
    exact hcopy

theorem place_of_isCopy {entry : Query.Entry} (hmem : entry ∈ docs)
    (hcopy : Content.isCopy space id entry.2 = true) : entry.1 = docs.placeOf space id := by
  rw [placeOf, (h.copyOf?_eq_some_iff entry).mpr ⟨hmem, hcopy⟩]

/-- What an index has of other copies is not changed by what leaves them as they are. -/
theorem copyOf?_eq_of_others {target : Space} {ids : List String} (hlater : later.Orderly)
    (hothers : later.others target ids = docs.others target ids)
    (hid : space = target → id ∉ ids) : later.copyOf? space id = docs.copyOf? space id := by
  -- a copy of the entity is among the others of the index it stands in
  have hmem : ∀ {index : Documents}, index.Orderly → ∀ entry,
      (entry ∈ index ∧ Content.isCopy space id entry.2 = true ↔
        entry ∈ index.others target ids ∧ Content.isCopy space id entry.2 = true) := by
    intro index hindex entry
    rw [mem_others, and_congr_left_iff]
    intro hcopy
    obtain ⟨hbelongs, heq⟩ := (Content.isCopy_iff space id entry.2).mp hcopy
    refine ⟨fun hentry => ⟨hentry, fun ⟨htarget, hin⟩ => ?_⟩, And.left⟩
    rw [heq] at hin
    exact hid (hindex.oneSpace entry hentry space target hbelongs htarget) hin
  apply Option.ext
  intro entry
  rw [hlater.copyOf?_eq_some_iff, h.copyOf?_eq_some_iff, hmem hlater, hmem h, hothers]

theorem placeOf_eq_of_others {target : Space} {ids : List String} (hlater : later.Orderly)
    (hothers : later.others target ids = docs.others target ids)
    (hid : space = target → id ∉ ids) : later.placeOf space id = docs.placeOf space id := by
  rw [placeOf, placeOf, h.copyOf?_eq_of_others hlater hothers hid]

end Orderly

/-! ### Putting and removing one copy -/

namespace Orderly

variable (h : docs.Orderly)

include h

/-- The documents after a copy is put: the new copy, and all that are not the earlier one. -/
theorem mem_put_copy (body : Table Json) (entry : Query.Entry) :
    entry ∈ Table.put docs (docs.placeOf space id) body ↔
      entry = (docs.placeOf space id, body) ∨
        entry ∈ docs ∧ ¬Content.isCopy space id entry.2 = true := by
  rw [h.distinct.mem_put, or_congr_right]
  refine and_congr_right fun hmem => not_congr ⟨fun hkey => ?_, h.place_of_isCopy hmem⟩
  have heq : (docs.placeOf space id, entry.2) = entry := Prod.ext hkey.symm rfl
  exact h.isCopy_of_place (heq ▸ hmem)

/-- Putting a copy where it belongs keeps an index orderly. -/
theorem put_copy {body : Table Json} (hid : id ≠ "")
    (hcopy : Content.isCopy space id body = true)
    (hone : ∀ other, Scope.belongs other body = true → other = space) :
    Orderly (Table.put docs (docs.placeOf space id) body) := by
  obtain ⟨hbelongs, hidOf⟩ := (Content.isCopy_iff space id body).mp hcopy
  -- another copy of the entity cannot have been kept
  have hnew : ∀ other name, Content.isCopy other name body = true → other = space ∧ name = id := by
    intro other name hother
    obtain ⟨hin, hname⟩ := (Content.isCopy_iff other name body).mp hother
    exact ⟨hone other hin, hname.symm.trans hidOf⟩
  constructor
  · exact h.distinct.put _ body
  · intro entry hmem
    rcases (h.mem_put_copy body entry).mp hmem with rfl | ⟨hold, -⟩
    · rw [hidOf]
      exact hid
    · exact h.identified entry hold
  · intro entry hmem a b ha hb
    rcases (h.mem_put_copy body entry).mp hmem with rfl | ⟨hold, -⟩
    · rw [hone a ha, hone b hb]
    · exact h.oneSpace entry hold a b ha hb
  · intro entry hmem other hother a name hentry hname
    rcases (h.mem_put_copy body entry).mp hmem with rfl | ⟨hold, hnot⟩
    · rcases (h.mem_put_copy body other).mp hother with rfl | ⟨hold', hnot'⟩
      · rfl
      · obtain ⟨rfl, rfl⟩ := hnew a name hentry
        exact absurd hname hnot'
    · rcases (h.mem_put_copy body other).mp hother with rfl | ⟨hold', hnot'⟩
      · obtain ⟨rfl, rfl⟩ := hnew a name hname
        exact absurd hentry hnot
      · exact h.oneCopy entry hold other hold' a name hentry hname
  · intro entry hmem a name hplace
    rcases (h.mem_put_copy body entry).mp hmem with rfl | ⟨hold, -⟩
    · -- the storage id is made for another copy only if it is that of the earlier copy
      rw [documentId_eq] at hplace
      have hkey : renderedId a name = docs.placeOf space id := Except.ok.inj hplace
      cases hfound : docs.copyOf? space id with
      | none =>
        rw [placeOf, hfound] at hkey
        obtain ⟨rfl, rfl⟩ := renderedId_injective hkey
        exact hcopy
      | some earlier =>
        obtain ⟨hearlier, hcopy'⟩ := copyOf?_mem hfound
        rw [placeOf, hfound] at hkey
        have hplaced := h.placed earlier hearlier a name (by rw [documentId_eq, hkey])
        obtain ⟨hin, hname⟩ := (Content.isCopy_iff a name earlier.2).mp hplaced
        obtain ⟨hin', hid'⟩ := (Content.isCopy_iff space id earlier.2).mp hcopy'
        rw [h.oneSpace earlier hearlier a space hin hin', ← hname, hid']
        exact hcopy
    · exact h.placed entry hold a name hplace

/-- The copy that is put is the copy there is. -/
theorem copyOf?_put_copy {body : Table Json} (hid : id ≠ "")
    (hcopy : Content.isCopy space id body = true)
    (hone : ∀ other, Scope.belongs other body = true → other = space) :
    copyOf? (Table.put docs (docs.placeOf space id) body) space id =
      some (docs.placeOf space id, body) := by
  rw [(h.put_copy hid hcopy hone).copyOf?_eq_some_iff, h.mem_put_copy]
  exact ⟨.inl rfl, hcopy⟩

/-- Putting a copy leaves all other documents as they are. -/
theorem others_put_copy {body : Table Json} (hcopy : Content.isCopy space id body = true) :
    others (Table.put docs (docs.placeOf space id) body) space [id] = docs.others space [id] := by
  have htest : ∀ body, Content.isCopy space id body = true →
      (!(Scope.belongs space body && [id].contains (Content.idOf body))) = false := by
    intro body hbody
    obtain ⟨hbelongs, hidOf⟩ := (Content.isCopy_iff space id body).mp hbody
    simp [hbelongs, hidOf]
  exact Table.filter_put docs _ body _ (htest body hcopy)
    fun earlier hmem => htest earlier (h.isCopy_of_place hmem)

theorem remove (key : String) : Orderly (Table.remove docs key) := by
  have hmem : ∀ entry, entry ∈ Table.remove docs key → entry ∈ docs :=
    fun entry hentry => ((Table.mem_remove docs key entry).mp hentry).1
  constructor
  · exact h.distinct.remove key
  · exact fun entry hentry => h.identified entry (hmem entry hentry)
  · exact fun entry hentry => h.oneSpace entry (hmem entry hentry)
  · exact fun entry hentry other hother =>
      h.oneCopy entry (hmem entry hentry) other (hmem other hother)
  · exact fun entry hentry => h.placed entry (hmem entry hentry)

/-- A copy that is removed is not there any more. -/
theorem copyOf?_remove_copy {entry : Query.Entry} (hfound : docs.copyOf? space id = some entry) :
    copyOf? (Table.remove docs entry.1) space id = none := by
  rw [copyOf?_eq_none_iff]
  intro other hother hcopy
  obtain ⟨hmem, hkey⟩ := (Table.mem_remove docs entry.1 other).mp hother
  have heq := (h.copyOf?_eq_some_iff other).mpr ⟨hmem, hcopy⟩
  rw [hfound] at heq
  exact hkey (by rw [Option.some.inj heq])

/-- Removing a copy leaves all other documents as they are. -/
theorem others_remove_copy {entry : Query.Entry} (hfound : docs.copyOf? space id = some entry) :
    others (Table.remove docs entry.1) space [id] = docs.others space [id] := by
  obtain ⟨hentry, hcopy⟩ := copyOf?_mem hfound
  obtain ⟨hbelongs, hidOf⟩ := (Content.isCopy_iff space id entry.2).mp hcopy
  apply Table.filter_remove docs
  intro body hmem
  have heq := List.inj_on_of_nodup_map h.distinct hmem hentry rfl
  rw [heq, hbelongs, hidOf]
  simp

end Orderly

/-! ### Putting and removing many copies -/

/-- The documents after copies of some entities are put, each where it belongs. -/
def putCopies (docs : Documents) (space : Space) (body : String → Table Json)
    (ids : List String) : Documents :=
  ids.foldl (fun later id => Table.put later (docs.placeOf space id) (body id)) docs

/-- The documents without one that may have been found among them. -/
def takeOut (docs : Documents) : Option Query.Entry → Documents
  | some entry => Table.remove docs entry.1
  | none => docs

/-- The documents without the copies of some entities. -/
def removeCopies (docs : Documents) (space : Space) (ids : List String) : Documents :=
  ids.foldl (fun later id => later.takeOut (docs.copyOf? space id)) docs

/-- What an index is after it was changed in the copies of some entities in a space: orderly, with
the same other documents. -/
structure Changed (docs later : Documents) (space : Space) (ids : List String) : Prop where
  orderly : later.Orderly
  others : later.others space ids = docs.others space ids

/-- Changes one after another. -/
theorem Changed.trans {last : Documents} {ids more : List String}
    (h : docs.Changed later space ids) (h' : later.Changed last space more) :
    docs.Changed last space (ids ++ more) where
  orderly := h'.orderly
  others := by
    have hfirst : (later.others space more).others space ids =
        (last.others space more).others space ids := by rw [h'.others]
    have hswap : ∀ docs : Documents, docs.others space (ids ++ more) =
        (docs.others space more).others space ids := by
      intro docs
      rw [others_append, Documents.others, Documents.others, Documents.others, Documents.others,
        List.filter_filter, List.filter_filter]
      exact List.filter_congr fun entry _ => Bool.and_comm _ _
    rw [hswap, ← hfirst, ← hswap, others_append, h.others, ← others_append]

theorem Changed.copyOf?_eq {ids : List String} (h : docs.Changed later space ids)
    (horderly : docs.Orderly) {other : Space} (hid : other = space → id ∉ ids) :
    later.copyOf? other id = docs.copyOf? other id :=
  horderly.copyOf?_eq_of_others h.orderly h.others hid

theorem Changed.placeOf_eq {ids : List String} (h : docs.Changed later space ids)
    (horderly : docs.Orderly) {other : Space} (hid : other = space → id ∉ ids) :
    later.placeOf other id = docs.placeOf other id :=
  horderly.placeOf_eq_of_others h.orderly h.others hid

/-- Two indexes that were made from one by changes of the same copies have the same documents, if
they have the same ones of these copies. -/
theorem Changed.get?_eq {ids : List String} (h : docs.Changed later space ids)
    {last : Documents} (h' : docs.Changed last space ids)
    (hcopies : ∀ id ∈ ids, later.copyOf? space id = last.copyOf? space id) (key : String) :
    Table.get? later key = Table.get? last key := by
  -- a document is one of the copies, or one of those that neither change is about
  have hmem : ∀ {index : Documents}, index.Orderly → ∀ entry, (entry ∈ index ↔
      entry ∈ index.others space ids ∨ Content.idOf entry.2 ∈ ids ∧
        index.copyOf? space (Content.idOf entry.2) = some entry) := by
    intro index hindex entry
    rw [mem_others, hindex.copyOf?_eq_some_iff, Content.isCopy_iff]
    by_cases habout : Scope.belongs space entry.2 = true ∧ Content.idOf entry.2 ∈ ids
    · simp [habout]
    · simp only [habout, not_false_eq_true, and_true]
      refine ⟨.inl, fun hor => hor.elim id fun hcopy => hcopy.2.1⟩
  apply Option.ext
  intro body
  rw [h.orderly.distinct.get?_eq_some_iff, h'.orderly.distinct.get?_eq_some_iff,
    hmem h.orderly, hmem h'.orderly, h.others, h'.others]
  refine or_congr Iff.rfl (and_congr_right fun hid => ?_)
  rw [hcopies _ hid]

/-- Bodies that can be put as the copies of entities in a space. -/
structure Fits (space : Space) (id : String) (body : Table Json) : Prop where
  nonempty : id ≠ ""
  isCopy : Content.isCopy space id body = true
  oneSpace : ∀ other, Scope.belongs other body = true → other = space

/-- After copies of distinct entities are put in an orderly index, they are the copies there are,
and all other documents stay. -/
theorem putCopies_changed (h : docs.Orderly) (space : Space) {body : String → Table Json}
    {ids : List String} (hdistinct : ids.Nodup) (hfits : ∀ id ∈ ids, Fits space id (body id)) :
    docs.Changed (docs.putCopies space body ids) space ids ∧
      ∀ id ∈ ids, (docs.putCopies space body ids).copyOf? space id =
        some (docs.placeOf space id, body id) := by
  induction ids using List.reverseRecOn with
  | nil => exact ⟨⟨h, rfl⟩, by simp⟩
  | append_singleton ids last ih =>
    obtain ⟨hids, -, hlast⟩ := List.nodup_append.mp hdistinct
    have hnew : last ∉ ids := fun hmem => hlast last hmem last (List.mem_singleton_self last) rfl
    obtain ⟨hchanged, hcopies⟩ :=
      ih hids fun id hmem => hfits id (List.mem_append_left _ hmem)
    have hfit := hfits last (by simp)
    -- the storage id was read before the first write, and is still the one to use
    have hplace : docs.placeOf space last = (docs.putCopies space body ids).placeOf space last :=
      (hchanged.placeOf_eq h fun _ => hnew).symm
    have hstep : docs.putCopies space body (ids ++ [last]) =
        Table.put (docs.putCopies space body ids)
          ((docs.putCopies space body ids).placeOf space last) (body last) := by
      rw [← hplace, putCopies, List.foldl_append]
      rfl
    have hput : (docs.putCopies space body ids).Changed (docs.putCopies space body (ids ++ [last]))
        space [last] := by
      rw [hstep]
      exact ⟨hchanged.orderly.put_copy hfit.nonempty hfit.isCopy hfit.oneSpace,
        hchanged.orderly.others_put_copy hfit.isCopy⟩
    refine ⟨hchanged.trans hput, fun id hmem => ?_⟩
    rcases List.mem_append.mp hmem with hmem | hmem
    · rw [hput.copyOf?_eq hchanged.orderly, hcopies id hmem]
      rintro - hlast
      exact hnew (List.mem_singleton.mp hlast ▸ hmem)
    · rw [List.mem_singleton.mp hmem, hstep,
        hchanged.orderly.copyOf?_put_copy hfit.nonempty hfit.isCopy hfit.oneSpace, hplace]

/-- After the copies of distinct entities are removed from an orderly index, none of them is there,
and all other documents stay. -/
theorem removeCopies_changed (h : docs.Orderly) (space : Space) {ids : List String}
    (hdistinct : ids.Nodup) :
    docs.Changed (docs.removeCopies space ids) space ids ∧
      ∀ id ∈ ids, (docs.removeCopies space ids).copyOf? space id = none := by
  induction ids using List.reverseRecOn with
  | nil => exact ⟨⟨h, rfl⟩, by simp⟩
  | append_singleton ids last ih =>
    obtain ⟨hids, -, hlast⟩ := List.nodup_append.mp hdistinct
    have hnew : last ∉ ids := fun hmem => hlast last hmem last (List.mem_singleton_self last) rfl
    obtain ⟨hchanged, hcopies⟩ := ih hids
    have hcopy : (docs.removeCopies space ids).copyOf? space last = docs.copyOf? space last :=
      hchanged.copyOf?_eq h fun _ => hnew
    have hstep : docs.removeCopies space (ids ++ [last]) =
        (docs.removeCopies space ids).takeOut (docs.copyOf? space last) := by
      rw [removeCopies, List.foldl_append]
      rfl
    have hremove : (docs.removeCopies space ids).Changed
        (docs.removeCopies space (ids ++ [last])) space [last] ∧
        (docs.removeCopies space (ids ++ [last])).copyOf? space last = none := by
      rw [hstep]
      cases hfound : docs.copyOf? space last with
      | none => exact ⟨⟨hchanged.orderly, rfl⟩, hcopy.trans hfound⟩
      | some entry =>
        have hthere := hcopy.trans hfound
        exact ⟨⟨hchanged.orderly.remove entry.1, hchanged.orderly.others_remove_copy hthere⟩,
          hchanged.orderly.copyOf?_remove_copy hthere⟩
    refine ⟨hchanged.trans hremove.1, fun id hmem => ?_⟩
    rcases List.mem_append.mp hmem with hmem | hmem
    · rw [hremove.1.copyOf?_eq hchanged.orderly, hcopies id hmem]
      rintro - hlast
      exact hnew (List.mem_singleton.mp hlast ▸ hmem)
    · rw [List.mem_singleton.mp hmem]
      exact hremove.2

end Documents

end Lifecycle
