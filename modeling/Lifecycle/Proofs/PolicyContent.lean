import Lifecycle.Proofs.Checks
import Lifecycle.Proofs.Policies

/-!
# Policies that are saved and read back

A policy that was read from a document is written with its known fields first, so that it is read
back with the same known fields from what was saved, also where the space that it names among its
other fields was relabelled (`Policy.check_saved`). What is read back has the same content hash
(`Policy.contentHash_reread`), for neither the space nor the time stamps nor the id count in it.

In a policies index that is orderly (`Documents.OrderlyPolicies`) a saved policy is the policy of
its space, and no other space has another policy than before (`Documents.policyOf?_put`). So a
promoted policy is that of its source, but for id and time (`Commit.stored?_promotedPolicies`).
-/

namespace Lifecycle

namespace Policy

open Content (relabelledField get?_relabelledField_of_ne substance volatileKeys)

/-! ### Reading a policy -/

theorem ofFields_eq_good_iff {fields : Table Json} {policy : Policy} :
    ofFields fields = .good policy ↔
      Check.optional fields "id" "" Check.text = .good policy.id ∧
      Check.optional fields "title" "" Check.text = .good policy.title ∧
      Check.optional fields "description" "" Check.text = .good policy.description ∧
      Check.optional fields "author" "" Check.text = .good policy.author ∧
      Check.optional fields "documentation" "" Check.text = .good policy.documentation ∧
      Check.optional fields "references" [] (Check.listOf Check.text) = .good policy.references ∧
      Check.optional fields "root_decoder" "" Check.text = .good policy.rootDecoder ∧
      Check.optional fields "integrations" [] (Check.listOf Check.text) =
        .good policy.integrations ∧
      Check.optional fields "date" none Check.text? = .good policy.date ∧
      Check.optional fields "modified" none Check.text? = .good policy.modified ∧
      fields.without knownKeys = policy.extra := by
  obtain ⟨id, title, description, author, documentation, references, rootDecoder, integrations,
    date, modified, extra⟩ := policy
  constructor
  · intro h
    simp only [ofFields, Checked.seq_eq_good_iff, Checked.map_eq_good_iff,
      Checked.pure_eq_good_iff] at h
    obtain ⟨_, _, ⟨_, _, ⟨_, _, ⟨_, _, ⟨_, _, ⟨_, _, ⟨_, _, ⟨_, _, ⟨_, _, ⟨_, _, ⟨_, hid, rfl⟩,
      htitle, rfl⟩, hdescription, rfl⟩, hauthor, rfl⟩, hdocumentation, rfl⟩, hreferences, rfl⟩,
      hroot, rfl⟩, hintegrations, rfl⟩, hdate, rfl⟩, hmodified, rfl⟩, hextra, heq⟩ := h
    obtain ⟨rfl, rfl, rfl, rfl, rfl, rfl, rfl, rfl, rfl, rfl, rfl⟩ := Policy.mk.inj heq
    exact ⟨hid, htitle, hdescription, hauthor, hdocumentation, hreferences, hroot, hintegrations,
      hdate, hmodified, hextra⟩
  · rintro ⟨hid, htitle, hdescription, hauthor, hdocumentation, hreferences, hroot, hintegrations,
      hdate, hmodified, hextra⟩
    rw [ofFields]
    simp only [hid, htitle, hdescription, hauthor, hdocumentation, hreferences, hroot,
      hintegrations, hdate, hmodified, hextra]
    rfl

/-- A policy that is read keeps in its other fields none that is known. -/
theorem extra_of_check {value : Json} {policy : Policy} (h : check value = .good policy) :
    policy.extra.without knownKeys = policy.extra := by
  cases value with
  | object fields =>
    obtain ⟨-, -, -, -, -, -, -, -, -, -, hextra⟩ := ofFields_eq_good_iff.mp h
    rw [← hextra, Table.without, Table.without, List.filter_filter]
    simp
  | _ => cases h

/-- A policy keeps the label of the document that it is read from. -/
theorem get?_space_fields {value : Json} {policy : Policy} (h : check value = .good policy) :
    policy.fields.get? "space" = value.get? "space" := by
  have hextra : policy.fields.get? "space" = policy.extra.get? "space" := rfl
  cases value with
  | object fields =>
    obtain ⟨-, -, -, -, -, -, -, -, -, -, hfields⟩ := ofFields_eq_good_iff.mp h
    rw [hextra, ← hfields, Table.get?_without (by decide)]
    rfl
  | _ => cases h

/-! ### Reading back what was saved -/

/-- The policy that is read back from the document that another one was saved as. -/
def reread (policy : Policy) (space : Space) : Policy :=
  { policy with extra := (relabelledField policy.fields space.name).without knownKeys }

theorem check_saved (policy : Policy) (space : Space) :
    check (.object (relabelledField policy.fields space.name)) = .good (policy.reread space) := by
  -- the known fields stand first, and relabelling is about none of them
  have hget : ∀ key, key ≠ "space" →
      (relabelledField policy.fields space.name).get? key = policy.fields.get? key :=
    fun key hkey => get?_relabelledField_of_ne hkey space.name
  have htext : ∀ {key : String} {default : String} {s : String}, key ≠ "space" →
      policy.fields.get? key = some (.text s) →
        Check.optional (relabelledField policy.fields space.name) key default Check.text =
          .good s := by
    intro key default s hkey hfound
    exact Check.optional_eq_good_iff.mpr (.inr ⟨_, by rw [hget key hkey, hfound], rfl⟩)
  have htexts : ∀ {key : String} {default items : List String}, key ≠ "space" →
      policy.fields.get? key = some (Json.texts items) →
        Check.optional (relabelledField policy.fields space.name) key default
          (Check.listOf Check.text) = .good items := by
    intro key default items hkey hfound
    exact Check.optional_eq_good_iff.mpr
      (.inr ⟨_, by rw [hget key hkey, hfound], Check.listOf_text_eq_good_iff.mpr rfl⟩)
  have htime : ∀ {key : String} {default time : Option String}, key ≠ "space" →
      policy.fields.get? key = some (Json.ofText? time) →
        Check.optional (relabelledField policy.fields space.name) key default Check.text? =
          .good time := by
    intro key default time hkey hfound
    refine Check.optional_eq_good_iff.mpr (.inr ⟨_, by rw [hget key hkey, hfound], ?_⟩)
    cases time <;> rfl
  refine ofFields_eq_good_iff.mpr ⟨?_, ?_, ?_, ?_, ?_, ?_, ?_, ?_, ?_, ?_, rfl⟩
  · exact htext (by decide) rfl
  · exact htext (by decide) rfl
  · exact htext (by decide) rfl
  · exact htext (by decide) rfl
  · exact htext (by decide) rfl
  · exact htexts (by decide) rfl
  · exact htext (by decide) rfl
  · exact htexts (by decide) rfl
  · exact htime (by decide) rfl
  · exact htime (by decide) rfl

def knownFields (policy : Policy) : Table Json := { policy with extra := [] }.fields

theorem fields_eq (policy : Policy) : policy.fields = policy.knownFields ++ policy.extra := by
  rw [knownFields, fields, fields, List.append_nil]

/-- A policy that names no space among its other fields is read back as it was saved. -/
theorem reread_of_plain {policy : Policy}
    (hextra : policy.extra.without knownKeys = policy.extra)
    (hspace : policy.fields.get? "space" = none) (space : Space) :
    policy.reread space = policy := by
  have hknown : policy.knownFields.without knownKeys = [] := rfl
  have hfields : policy.fields.without knownKeys = policy.extra := by
    rw [fields_eq, Table.without, List.filter_append, ← Table.without, hknown, List.nil_append]
    exact hextra
  rw [reread, relabelledField, hspace, hfields]

theorem contentHash_reread {policy : Policy}
    (hextra : policy.extra.without knownKeys = policy.extra) (space : Space) :
    (policy.reread space).contentHash = policy.contentHash := by
  set counts : String × Json → Bool := fun field => !(volatileKeys ++ ["id"]).contains field.1
    with hcounts
  set other : String × Json → Bool := fun field => !knownKeys.contains field.1 with hother
  have hnone : policy.knownFields.filter (fun field => counts field && other field) = [] := by
    apply List.filter_eq_nil_iff.mpr
    intro field hmem
    have hkey : field.1 ∈ policy.knownFields.map Prod.fst := List.mem_map_of_mem hmem
    have hknown : field.1 ∈ knownKeys := hkey
    simp [hother, hknown]
  -- what counts of the other fields is the same, wherever the space stands among them
  have hsame : ((relabelledField policy.fields space.name).filter other).filter counts =
      policy.extra.filter counts :=
    calc ((relabelledField policy.fields space.name).filter other).filter counts
      _ = (relabelledField policy.fields space.name).filter
          fun field => counts field && other field := List.filter_filter
      _ = policy.fields.filter fun field => counts field && other field :=
        Content.filter_relabelledField _ _ fun value => by simp [hcounts, volatileKeys]
      _ = policy.extra.filter fun field => counts field && other field := by
        rw [fields_eq, List.filter_append, hnone, List.nil_append]
      _ = (policy.extra.filter other).filter counts := List.filter_filter.symm
      _ = policy.extra.filter counts := congrArg _ hextra
  have hsubstance : substance (policy.reread space).fields ["id"] =
      substance policy.fields ["id"] := by
    have hfields : (policy.reread space).fields = policy.knownFields ++
        (relabelledField policy.fields space.name).filter other := fields_eq _
    rw [hfields, fields_eq policy]
    show ((policy.knownFields ++ _).filter counts) = (policy.knownFields ++ _).filter counts
    rw [List.filter_append, List.filter_append, ← fields_eq, hsame]
  rw [contentHash, contentHash, Content.hash, Content.hash, Content.canonicalText,
    Content.canonicalText, hsubstance]

/-- Neither the id nor the time of the last write counts as content. -/
theorem contentHash_with (policy : Policy) (id : String) (modified : Option String) :
    { policy with id, modified }.contentHash = policy.contentHash := by
  have hsubstance : substance { policy with id, modified }.fields ["id"] =
      substance policy.fields ["id"] := by
    simp [substance, fields, Table.without, volatileKeys]
  rw [contentHash, contentHash, Content.hash, Content.hash, Content.canonicalText,
    Content.canonicalText, hsubstance]

end Policy

/-! ### Bodies of policies -/

namespace Policies

open Content (relabelledField)

variable {base : Table Json} {space target : Space}

theorem get?_space_savedBody {fields : Table Json}
    (hspace : base.get? "space" = some (.object fields)) (document : Policy) :
    (savedBody target document base).get? "space" =
      some (.object (Table.put fields "name" (.text target.name))) := by
  have hput : (base.put "document" document.toJson).get? "space" = some (.object fields) := by
    rw [Table.get?_put, if_neg (by decide), hspace]
  rw [savedBody, Table.get?_put, if_neg (by decide), Content.get?_space_relabelled hput]

theorem get?_document_savedBody (document : Policy) :
    (savedBody target document base).get? "document" =
      some (.object (relabelledField document.fields target.name)) := by
  have hput : (base.put "document" document.toJson).get? "document" =
      some (.object document.fields) := by
    rw [Table.get?_put, if_pos rfl, Policy.toJson]
  rw [savedBody, Table.get?_put, if_neg (by decide), Content.get?_document_relabelled hput]

theorem belongs_savedBody (hbase : Scope.belongs space base = true) (document : Policy)
    (other : Space) :
    Scope.belongs other (savedBody target document base) = true ↔ other = target := by
  obtain ⟨fields, hspace⟩ := Content.exists_space hbase
  apply Content.belongs_iff_of_name (get?_space_savedBody hspace document)
  rw [Table.get?_put, if_pos rfl]

theorem documentValue_savedBody (document : Policy) :
    Content.documentValue (savedBody target document base) =
      .object (relabelledField document.fields target.name) := by
  have hnonempty : (relabelledField document.fields target.name).isEmpty = false := by
    have hid : (relabelledField document.fields target.name).get? "id" =
        some (.text document.id) := by
      rw [Content.get?_relabelledField_of_ne (by decide)]
      rfl
    cases hfields : relabelledField document.fields target.name with
    | nil => rw [hfields] at hid; cases hid
    | cons field rest => rfl
  rw [Content.documentValue, Json.under, get?_document_savedBody]
  simp [Json.given?, Json.truthy, hnonempty]

/-- What a policy that was saved is read back as. -/
theorem toRecord_savedBody (docId : String) (document : Policy) :
    toRecord target ⟨docId, savedBody target document base⟩ =
      .ok { docId, space := target, document := document.reread target
            source := savedBody target document base } := by
  rw [toRecord, documentValue_savedBody, Policy.check_saved]
  rfl

theorem toRecord_eq_ok_iff {hit : Hit} {record : PolicyRecord} :
    toRecord space hit = .ok record ↔
      ∃ document, Policy.check (Content.documentValue hit.source) = .good document ∧
        record = { docId := hit.id, space, document, source := hit.source } := by
  rw [toRecord]
  cases Policy.check (Content.documentValue hit.source) with
  | good document =>
    show Except.ok _ = Except.ok record ↔ _
    simp [eq_comm]
  | bad details =>
    simp [Checked.orMisfit, bind, Except.bind]

end Policies

/-! ### Bodies but for the time -/

namespace Content

/-- A body whose document does not say when it was last written. -/
def unstamped (body : Table Json) : Table Json :=
  match body.get? "document" with
  | some (.object fields) => body.put "document" (.object (Table.remove fields "modified"))
  | _ => body

end Content

namespace Policies

open Content (relabelledField unstamped)

theorem remove_modified_relabelledField (fields : Table Json) (name : String) :
    Table.remove (relabelledField fields name) "modified" =
      relabelledField (Table.remove fields "modified") name := by
  rw [relabelledField, relabelledField, Table.get?_remove, if_neg (by decide)]
  cases fields.get? "space" with
  | none => rfl
  | some label => exact Table.remove_put_of_ne fields (by decide) _

/-- The body of a policy that is saved over one that names its space in an object, but for the time
of the write: the document, the space and the hash are written over the earlier ones. -/
theorem unstamped_savedBody {base fields : Table Json}
    (hspace : base.get? "space" = some (.object fields)) (target : Space) (document : Policy) :
    unstamped (savedBody target document base) =
      ((base.put "document" (.object (Table.remove (relabelledField document.fields target.name)
          "modified"))).put "space" (Content.labelled (.object fields) target.name)).put "hash"
        (.object [("sha256", .text document.contentHash)]) := by
  set written := base.put "document" document.toJson with hwritten
  set label := Content.labelled (.object fields) target.name with hlabel
  have hspace' : written.get? "space" = some (.object fields) := by
    rw [hwritten, Table.get?_put, if_neg (by decide), hspace]
  have hdocument : written.get? "document" = some (.object document.fields) := by
    rw [hwritten, Table.get?_put, if_pos rfl, Policy.toJson]
  have hassigned : Content.isAssigned written = true := by
    simp [Content.isAssigned, Table.has, hspace']
  -- the document may be written once more, if it names the space, and is written without its time
  have hagain : ∀ value, (Content.relabelled written target.name).put "document" value =
      (base.put "document" value).put "space" label := by
    intro value
    have hstays : (written.put "space" label).get? "document" = some (.object document.fields) := by
      rw [Table.get?_put, if_neg (by decide), hdocument]
    rw [Content.relabelled_of_assigned hassigned, Content.relabelledField_of_some hspace',
      Content.relabelledWithin_of_object hstays, Table.put_put,
      ← Table.put_comm (Table.mem_keys_of_get? hdocument) (by decide), hwritten, Table.put_put]
  have hrelabelled := Content.get?_document_relabelled hdocument target.name
  rw [unstamped, get?_document_savedBody]
  dsimp only
  rw [savedBody, ← hwritten, ← Table.put_comm (Table.mem_keys_of_get? hrelabelled) (by decide),
    hagain]

/-- Saving a policy over the same body at two points in time makes bodies that are the same but for
the time. -/
theorem unstamped_savedBody_stamped {base : Table Json} {space : Space}
    (hbase : Scope.belongs space base = true) (target : Space) (document : Policy)
    (time other : Instant) :
    unstamped (savedBody target (stamped document time) base) =
      unstamped (savedBody target (stamped document other) base) := by
  obtain ⟨fields, hspace⟩ := Content.exists_space hbase
  have hfields : ∀ time, Table.remove (stamped document time).fields "modified" =
      Table.remove { document with modified := none }.fields "modified" := fun time => rfl
  have hhash : (stamped document time).contentHash = (stamped document other).contentHash := by
    have hplain : ∀ time, (stamped document time).contentHash = document.contentHash :=
      fun time => Policy.contentHash_with document document.id _
    rw [hplain, hplain]
  rw [unstamped_savedBody hspace, unstamped_savedBody hspace, hhash]
  simp only [remove_modified_relabelledField, hfields]

end Policies

/-! ### Policies indexes -/

namespace Documents

/-- An index of policies: every document has one space at most, every space one document, and what
stands under a storage id that is made for a space belongs to the space. -/
structure OrderlyPolicies (docs : Documents) : Prop where
  distinct : Table.Distinct docs
  oneSpace : ∀ entry ∈ docs, ∀ a b, Scope.belongs a entry.2 = true →
    Scope.belongs b entry.2 = true → a = b
  onePolicy : ∀ entry ∈ docs, ∀ other ∈ docs, ∀ space, Scope.belongs space entry.2 = true →
    Scope.belongs space other.2 = true → entry = other
  placed : ∀ entry ∈ docs, ∀ space id,
    ({} : ContentSettings).documentId space.name id = .ok entry.1 →
      Scope.belongs space entry.2 = true

def policyOf? (docs : Documents) (space : Space) : Option Query.Entry :=
  docs.find? fun entry => Scope.belongs space entry.2

variable {docs : Documents} {space target : Space}

theorem policyOf?_mem {entry : Query.Entry} (h : docs.policyOf? space = some entry) :
    entry ∈ docs ∧ Scope.belongs space entry.2 = true :=
  ⟨List.mem_of_find?_eq_some h, by simpa using List.find?_some h⟩

theorem policyOf?_eq_none_iff :
    docs.policyOf? space = none ↔ ∀ entry ∈ docs, ¬Scope.belongs space entry.2 = true := by
  rw [policyOf?, List.find?_eq_none]

/-- A policy that is put under the storage id of the earlier one is the policy of its space, and no
other space has another one than before. -/
theorem policyOf?_put (h : docs.OrderlyPolicies) {key : String} {body : Table Json}
    (hbody : ∀ other, Scope.belongs other body = true ↔ other = target)
    (hkey : ∀ entry ∈ docs, entry.1 = key ↔ Scope.belongs target entry.2 = true) (space : Space) :
    policyOf? (Table.put docs key body) space =
      if space = target then some (key, body) else docs.policyOf? space := by
  unfold policyOf?
  rw [← List.head?_filter, ← List.head?_filter]
  by_cases hspace : space = target
  · subst hspace
    -- the new document is the only one left that belongs to the space
    have hmem : ∀ entry, entry ∈ (Table.put docs key body).filter
        (fun entry => Scope.belongs space entry.2) ↔ entry = (key, body) := by
      intro entry
      rw [List.mem_filter, h.distinct.mem_put]
      constructor
      · rintro ⟨rfl | ⟨hold, hne⟩, hbelongs⟩
        · rfl
        · exact absurd ((hkey entry hold).mpr hbelongs) hne
      · rintro rfl
        exact ⟨.inl rfl, (hbody space).mpr rfl⟩
    have hnodup : (Table.put docs key body).Nodup :=
      List.Nodup.of_map Prod.fst (h.distinct.put key body)
    have hperm := (List.perm_ext_iff_of_nodup (hnodup.filter _)
      (List.nodup_singleton (key, body))).mpr fun entry => by
        rw [hmem, List.mem_singleton]
    rw [if_pos rfl, List.perm_singleton.mp hperm]
    rfl
  · rw [if_neg hspace]
    congr 1
    apply Table.filter_put
    · rw [← Bool.not_eq_true, hbody]
      exact hspace
    · intro earlier hold
      have htarget := (hkey _ hold).mp rfl
      rw [← Bool.not_eq_true]
      exact fun hbelongs => hspace (h.oneSpace _ hold space target hbelongs htarget)

/-- The policy of a space is read from its document. -/
theorem stored?_eq (docs : Documents) (space : Space) :
    Policies.stored? docs space =
      (docs.policyOf? space).elim (.ok none) fun entry =>
        (Policies.toRecord space ⟨entry.1, entry.2⟩).map some := by
  rw [Policies.stored?, policyOf?]
  cases docs.find? fun entry => Scope.belongs space entry.2 <;> rfl

theorem stored?_eq_none (h : Policies.stored? docs space = .ok none) :
    docs.policyOf? space = none := by
  rw [stored?_eq] at h
  cases hfound : docs.policyOf? space with
  | none => rfl
  | some entry =>
    rw [hfound] at h
    cases hrecord : Policies.toRecord space ⟨entry.1, entry.2⟩ with
    | error fault => simp [hrecord, Except.map] at h
    | ok record => simp [hrecord, Except.map] at h

theorem stored?_eq_some {record : PolicyRecord}
    (h : Policies.stored? docs space = .ok (some record)) :
    docs.policyOf? space = some (record.docId, record.source) ∧ record.space = space ∧
      Policy.check (Content.documentValue record.source) = .good record.document := by
  rw [stored?_eq] at h
  cases hfound : docs.policyOf? space with
  | none => simp [hfound] at h
  | some entry =>
    rw [hfound] at h
    cases hrecord : Policies.toRecord space ⟨entry.1, entry.2⟩ with
    | error fault => simp [hrecord, Except.map] at h
    | ok found =>
      simp only [hrecord, Except.map, Option.elim_some, Except.ok.injEq, Option.some.injEq] at h
      subst h
      obtain ⟨document, hdocument, rfl⟩ := Policies.toRecord_eq_ok_iff.mp hrecord
      exact ⟨rfl, rfl, hdocument⟩

/-- A policy that is saved over the one that is read of its space is read of it afterwards, however
many documents belong to the space. -/
theorem stored?_put {record : PolicyRecord}
    (h : Policies.stored? docs space = .ok (some record)) (document : Policy) :
    Policies.stored? (Table.put docs record.docId
        (Policies.savedBody space document record.source)) space =
      .ok (some
        { docId := record.docId, space, document := document.reread space
          source := Policies.savedBody space document record.source }) := by
  obtain ⟨hfound, -, -⟩ := stored?_eq_some h
  obtain ⟨-, hbelongs⟩ := policyOf?_mem hfound
  have hown : Scope.belongs space (Policies.savedBody space document record.source) = true :=
    (Policies.belongs_savedBody hbelongs document space).mpr rfl
  have hput : policyOf? (Table.put docs record.docId
      (Policies.savedBody space document record.source)) space =
        some (record.docId, Policies.savedBody space document record.source) :=
    Table.find?_put_of_find? hfound hown
  rw [stored?_eq, hput, Option.elim_some, Policies.toRecord_savedBody]
  rfl

/-- The storage id and the body that a policy is saved with replace those of the earlier one, and no
others. -/
theorem key_placeOf (h : docs.OrderlyPolicies) {current : Option PolicyRecord}
    (hcurrent : Policies.stored? docs target = .ok current) (document : Policy)
    (shape : Option PolicyRecord) :
    ∀ entry ∈ docs, entry.1 = (Policies.placeOf target document current shape).1 ↔
      Scope.belongs target entry.2 = true := by
  intro entry hmem
  cases current with
  | none =>
    have hnone := policyOf?_eq_none_iff.mp (stored?_eq_none hcurrent) entry hmem
    refine ⟨fun hkey => ?_, fun hbelongs => absurd hbelongs hnone⟩
    exact h.placed entry hmem target (Policies.newId document) (by rw [documentId_eq, hkey]; rfl)
  | some record =>
    obtain ⟨hfound, -, -⟩ := stored?_eq_some hcurrent
    obtain ⟨hin, hbelongs⟩ := policyOf?_mem hfound
    constructor
    · intro hkey
      have heq := List.inj_on_of_nodup_map h.distinct hmem hin hkey
      rw [heq]
      exact hbelongs
    · intro hthere
      rw [h.onePolicy entry hmem _ hin target hthere hbelongs]
      rfl

end Documents

/-! ### Promoted policies -/

namespace Commit

open Policies

variable {docs : Documents} {space target : Space} {source : PolicyRecord}
  {current : Option PolicyRecord}

/-- The policies after that of a space was promoted at a point in time. -/
def promotedPolicies (docs : Documents) (target : Space) (source : PolicyRecord)
    (current : Option PolicyRecord) (time : Instant) : Documents :=
  if samePolicy source current then docs
  else
    let document := promotedDocument source.document current
    let place := placeOf target document current (some source)
    Table.put docs place.1 (savedBody target (stamped document time) place.2)

theorem policies_replay_policyCalls (memory : Memory) (target : Space) (source : PolicyRecord)
    (current : Option PolicyRecord) (time : Instant) :
    (memory.replay (policyCalls target source current time)).policies =
      promotedPolicies memory.policies target source current time := by
  rw [policyCalls, promotedPolicies]
  by_cases hsame : samePolicy source current = true
  · rw [if_pos hsame, if_pos hsame]
    rfl
  · rw [if_neg hsame, if_neg hsame]
    exact Memory.documents_put memory _ _ _

/-- A policy is promoted over a body that belongs to a space. -/
theorem exists_belongs_placeOf (hsource : stored? docs space = .ok (some source))
    (hcurrent : stored? docs target = .ok current) (document : Policy) :
    ∃ origin, Scope.belongs origin (placeOf target document current (some source)).2 = true := by
  cases current with
  | none => exact ⟨space, (Documents.policyOf?_mem (Documents.stored?_eq_some hsource).1).2⟩
  | some record =>
    exact ⟨target, (Documents.policyOf?_mem (Documents.stored?_eq_some hcurrent).1).2⟩

/-- A promoted policy, unless it was the same before, is the policy of the successor, with the known
fields of its source but for id and time. -/
theorem stored?_promotedPolicies (h : docs.OrderlyPolicies)
    (hsource : stored? docs space = .ok (some source))
    (hcurrent : stored? docs target = .ok current) (hdiffers : samePolicy source current = false)
    (time : Instant) (other : Space) :
    ∃ key body, stored? (promotedPolicies docs target source current time) other =
      if other = target then
        .ok (some ⟨key, target,
          (stamped (promotedDocument source.document current) time).reread target, body, []⟩)
      else stored? docs other := by
  set document := promotedDocument source.document current with hdocument
  set place := placeOf target document current (some source) with hplace
  obtain ⟨origin, hbase⟩ := exists_belongs_placeOf hsource hcurrent document
  have hput := Documents.policyOf?_put h
    (belongs_savedBody hbase (stamped document time))
    (Documents.key_placeOf h hcurrent document (some source)) other
  refine ⟨place.1, savedBody target (stamped document time) place.2, ?_⟩
  rw [promotedPolicies, hdiffers, if_neg Bool.false_ne_true, Documents.stored?_eq, hput]
  by_cases hother : other = target
  · rw [if_pos hother, if_pos hother, hother, Option.elim_some, toRecord_savedBody]
    rfl
  · rw [if_neg hother, if_neg hother, ← Documents.stored?_eq]

/-- A policy is promoted with the fields of its source, but for the id and the time. -/
theorem stamped_promotedDocument (source : Policy) (current : Option PolicyRecord)
    (time : Instant) :
    ∃ id, stamped (promotedDocument source current) time =
      { source with id, modified := some time.toText } := by
  cases current with
  | none => exact ⟨source.id, rfl⟩
  | some record =>
    rw [promotedDocument]
    by_cases hempty : record.document.id.isEmpty = true
    · rw [if_pos hempty]
      exact ⟨source.id, rfl⟩
    · rw [if_neg hempty]
      exact ⟨record.document.id, rfl⟩

theorem contentHash_promoted (source : PolicyRecord)
    (hextra : source.document.extra.without Policy.knownKeys = source.document.extra)
    (current : Option PolicyRecord) (time : Instant) (target : Space) :
    ((stamped (promotedDocument source.document current) time).reread target).contentHash =
      source.document.contentHash := by
  obtain ⟨id, hpromoted⟩ := stamped_promotedDocument source.document current time
  rw [hpromoted, Policy.contentHash_reread, Policy.contentHash_with]
  exact hextra

end Commit

end Lifecycle
