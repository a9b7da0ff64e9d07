import Lifecycle.Proofs.Convergence
import Lifecycle.Proofs.Removals
import Lifecycle.Proofs.Serving

/-!
# The shape of the store

The contents have a *shape* (`Memory.Shaped`): each document names one of the spaces and holds an
object, no space has two copies of an entity or two policies, and what stands under a storage id
that is made for a space and an entity is the copy of the entity in the space.

No write checks any of this. It is kept because of where things are written: a copy goes where the
earlier one stands, else to the storage id that is made for it (`Memory.Shaped.put_copy`), and so
does a policy (`Memory.Shaped.save`). Each call of a stage is of this kind or a removal, so that
however far a commit comes, the shape is kept (`Commit.shaped_of_prefix_schedule`), and so it is by
whatever is done one after another (`Command.shaped_runAll` in `Lifecycle.Proofs.Commands`).
-/

namespace Lifecycle

variable {memory : Memory} {space target : Space}

/-! ### Shaped contents -/

/-- A body that names one of the spaces and has an object as its document. -/
structure Content.Shaped (body : Table Json) : Prop where
  named : ∃ space, Names body space
  documented : ∃ document, body.get? "document" = some (.object document)

/-- The shape of contents: each document names one of the spaces and has an object as its document;
entities have ids; no space has two copies of an entity, or two policies; and what stands under a
storage id that is made for a space and an entity belongs to the space, and has the id of the
entity if it is one. -/
structure Memory.Shaped (memory : Memory) : Prop where
  distinct : ∀ index ∈ contentIndexes, Table.Distinct (memory.documents index)
  bodies : ∀ index ∈ contentIndexes, ∀ entry ∈ memory.documents index, Content.Shaped entry.2
  identified : ∀ type, ∀ entry ∈ memory.entities type, Content.idOf entry.2 ≠ ""
  oneCopy : ∀ type, ∀ entry ∈ memory.entities type, ∀ other ∈ memory.entities type, ∀ space,
    Content.Names entry.2 space → Content.Names other.2 space →
      Content.idOf entry.2 = Content.idOf other.2 → entry = other
  onePolicy : ∀ entry ∈ memory.policies, ∀ other ∈ memory.policies, ∀ space,
    Content.Names entry.2 space → Content.Names other.2 space → entry = other
  placed : ∀ index ∈ contentIndexes, ∀ entry ∈ memory.documents index, ∀ (space : Space) id,
    ({} : ContentSettings).documentId space.name id = .ok entry.1 → Content.Names entry.2 space
  placedCopy : ∀ type, ∀ entry ∈ memory.entities type, ∀ (space : Space) id,
    ({} : ContentSettings).documentId space.name id = .ok entry.1 → Content.idOf entry.2 = id

/-- Whether a shaped body belongs to a space is said by the space that it names. -/
theorem Content.Shaped.belongs_iff {body : Table Json} (h : Shaped body) (space : Space) :
    Scope.belongs space body = true ↔ Names body space :=
  Memory.WellFormed.belongs_iff h.named space

theorem mem_contentIndexes_iff (index : String) :
    index ∈ contentIndexes ↔
      index = ".cti-policies" ∨ ∃ type, index = ({} : ContentSettings).indexFor type := by
  constructor
  · intro h
    simp only [contentIndexes, List.mem_cons, List.not_mem_nil, or_false] at h
    rcases h with rfl | rfl | rfl | rfl | rfl
    · exact .inr ⟨.integrations, rfl⟩
    · exact .inr ⟨.decoders, rfl⟩
    · exact .inr ⟨.kvdbs, rfl⟩
    · exact .inr ⟨.rules, rfl⟩
    · exact .inl rfl
  · rintro (rfl | ⟨type, rfl⟩)
    · decide
    · exact indexFor_mem type

namespace Memory

namespace Shaped

variable (h : memory.Shaped)

include h

theorem belongs_iff {index : String} (hindex : index ∈ contentIndexes) {entry : Query.Entry}
    (hentry : entry ∈ memory.documents index) (space : Space) :
    Scope.belongs space entry.2 = true ↔ Content.Names entry.2 space :=
  (h.bodies index hindex entry hentry).belongs_iff space

theorem oneSpace {index : String} (hindex : index ∈ contentIndexes) :
    ∀ entry ∈ memory.documents index, ∀ a b, Scope.belongs a entry.2 = true →
      Scope.belongs b entry.2 = true → a = b := by
  intro entry hentry a b ha hb
  rw [h.belongs_iff hindex hentry] at ha hb
  exact WellFormed.names_unique ha hb

theorem entities (type : EntityType) : (memory.entities type).Orderly where
  distinct := h.distinct _ (indexFor_mem type)
  identified := h.identified type
  oneSpace := h.oneSpace (indexFor_mem type)
  oneCopy entry hentry other hother space id hcopy hcopy' := by
    obtain ⟨hin, hid⟩ := (Content.isCopy_iff _ _ _).mp hcopy
    obtain ⟨hin', hid'⟩ := (Content.isCopy_iff _ _ _).mp hcopy'
    rw [h.belongs_iff (indexFor_mem type) hentry] at hin
    rw [h.belongs_iff (indexFor_mem type) hother] at hin'
    exact h.oneCopy type entry hentry other hother space hin hin' (hid.trans hid'.symm)
  placed entry hentry space id hplace := by
    rw [Content.isCopy_iff, h.belongs_iff (indexFor_mem type) hentry]
    exact ⟨h.placed _ (indexFor_mem type) entry hentry space id hplace,
      h.placedCopy type entry hentry space id hplace⟩

theorem policies : memory.policies.OrderlyPolicies := by
  have hindex : ".cti-policies" ∈ contentIndexes := by decide
  refine ⟨h.distinct _ hindex, h.oneSpace hindex, ?_, ?_⟩
  · intro entry hentry other hother space hin hin'
    rw [h.belongs_iff hindex hentry] at hin
    rw [h.belongs_iff hindex hother] at hin'
    exact h.onePolicy entry hentry other hother space hin hin'
  · intro entry hentry space id hplace
    exact (h.belongs_iff hindex hentry space).mpr (h.placed _ hindex entry hentry space id hplace)

end Shaped

/-- Contents have the shape when their bodies have one and their indexes are orderly. -/
theorem shaped_of
    (hbodies : ∀ index ∈ contentIndexes, ∀ entry ∈ memory.documents index,
      Content.Shaped entry.2)
    (hentities : ∀ type, (memory.entities type).Orderly)
    (hpolicies : memory.policies.OrderlyPolicies) : memory.Shaped := by
  have hindex : ".cti-policies" ∈ contentIndexes := by decide
  -- bodies of this shape belong to the one space that they name
  have hcopy : ∀ {type}, ∀ entry ∈ memory.entities type, ∀ space id,
      Content.isCopy space id entry.2 = true ↔
        Content.Names entry.2 space ∧ Content.idOf entry.2 = id := by
    intro type entry hentry space id
    rw [Content.isCopy_iff, (hbodies _ (indexFor_mem type) entry hentry).belongs_iff]
  have hpolicy : ∀ entry ∈ memory.policies, ∀ space,
      Scope.belongs space entry.2 = true ↔ Content.Names entry.2 space :=
    fun entry hentry => (hbodies _ hindex entry hentry).belongs_iff
  refine ⟨?_, hbodies, fun type => (hentities type).identified, ?_, ?_, ?_, ?_⟩
  · intro index hmem
    rcases (mem_contentIndexes_iff index).mp hmem with rfl | ⟨type, rfl⟩
    · exact hpolicies.distinct
    · exact (hentities type).distinct
  · intro type entry hentry other hother space hin hin' hid
    exact (hentities type).oneCopy entry hentry other hother space _
      ((hcopy entry hentry _ _).mpr ⟨hin, rfl⟩) ((hcopy other hother _ _).mpr ⟨hin', hid.symm⟩)
  · intro entry hentry other hother space hin hin'
    exact hpolicies.onePolicy entry hentry other hother space ((hpolicy entry hentry _).mpr hin)
      ((hpolicy other hother _).mpr hin')
  · intro index hmem entry hentry space id hplace
    rcases (mem_contentIndexes_iff index).mp hmem with rfl | ⟨type, rfl⟩
    · exact (hpolicy entry hentry _).mp (hpolicies.placed entry hentry space id hplace)
    · exact ((hcopy entry hentry _ _).mp
        ((hentities type).placed entry hentry space id hplace)).1
  · intro type entry hentry space id hplace
    exact ((hcopy entry hentry _ _).mp ((hentities type).placed entry hentry space id hplace)).2

/-! ### Writes that keep the shape -/

namespace Shaped

variable (h : memory.Shaped)

include h

/-- After a call all bodies have a shape if the one has that it puts. -/
theorem bodies_apply {call : Call}
    (hcall : ∀ index key body, call = .upsert index key body → Content.Shaped body) :
    ∀ index ∈ contentIndexes, ∀ entry ∈ (memory.apply call).documents index,
      Content.Shaped entry.2 := by
  intro index hindex entry hentry
  by_cases hsame : call.index = index
  · subst hsame
    cases call with
    | upsert index key body =>
      have hdocs : (memory.apply (.upsert index key body)).documents index =
          Table.put (memory.documents index) key body := documents_put memory index key body
      rw [Call.index, hdocs] at hentry
      rcases ((h.distinct index hindex).mem_put key body entry).mp hentry with rfl | ⟨hold, -⟩
      · exact hcall index key body rfl
      · exact h.bodies index hindex entry hold
    | delete index key =>
      have hdocs : (memory.apply (.delete index key)).documents index =
          Table.remove (memory.documents index) key := documents_delete memory index key
      rw [Call.index, hdocs] at hentry
      exact h.bodies index hindex entry ((Table.mem_remove _ key entry).mp hentry).1
    | _ => exact h.bodies _ hindex entry hentry
  · rw [documents_apply_of_ne hsame] at hentry
    exact h.bodies index hindex entry hentry

/-- A call about an index of entities keeps the shape if it keeps the index orderly. -/
theorem apply_entity {call : Call} {type : EntityType}
    (hindex : call.index = ({} : ContentSettings).indexFor type)
    (hcall : ∀ index key body, call = .upsert index key body → Content.Shaped body)
    (horderly : ((memory.apply call).entities type).Orderly) : (memory.apply call).Shaped := by
  refine shaped_of (h.bodies_apply hcall) (fun other => ?_) ?_
  · by_cases hother : other = type
    · exact hother ▸ horderly
    · have hne : call.index ≠ ({} : ContentSettings).indexFor other :=
        fun heq => hother (indexFor_injective (heq.symm.trans hindex))
      have hdocs : (memory.apply call).entities other = memory.entities other :=
        documents_apply_of_ne hne
      rw [hdocs]
      exact h.entities other
  · have hdocs : (memory.apply call).policies = memory.policies :=
      documents_apply_of_ne (hindex ▸ indexFor_ne_policies type)
    rw [hdocs]
    exact h.policies

/-- A call about the index of policies keeps the shape if it keeps the index orderly. -/
theorem apply_policy {call : Call} (hindex : call.index = ".cti-policies")
    (hcall : ∀ index key body, call = .upsert index key body → Content.Shaped body)
    (horderly : (memory.apply call).policies.OrderlyPolicies) : (memory.apply call).Shaped := by
  refine shaped_of (h.bodies_apply hcall) (fun type => ?_) horderly
  have hdocs : (memory.apply call).entities type = memory.entities type :=
    documents_apply_of_ne (hindex ▸ (indexFor_ne_policies type).symm)
  rw [hdocs]
  exact h.entities type

/-- A removal of an entity keeps the shape. -/
theorem delete (type : EntityType) (key : String) :
    (memory.apply (.delete (({} : ContentSettings).indexFor type) key)).Shaped := by
  refine h.apply_entity rfl nofun ?_
  have hdocs : (memory.apply (.delete (({} : ContentSettings).indexFor type) key)).entities type =
      Table.remove (memory.entities type) key := documents_delete memory _ key
  rw [hdocs]
  exact (h.entities type).remove key

/-- A copy that is put where it belongs keeps the shape. -/
theorem put_copy {type : EntityType} {id : String} {body : Table Json}
    (hfits : Documents.Fits target id body) (hbody : Content.Shaped body) :
    (memory.apply (.upsert (({} : ContentSettings).indexFor type)
      ((memory.entities type).placeOf target id) body)).Shaped := by
  refine h.apply_entity rfl (fun _ _ _ heq => ?_) ?_
  · cases heq
    exact hbody
  · have hdocs : (memory.apply (.upsert (({} : ContentSettings).indexFor type)
        ((memory.entities type).placeOf target id) body)).entities type =
          Table.put (memory.entities type) ((memory.entities type).placeOf target id) body :=
      documents_put memory _ _ body
    rw [hdocs]
    exact (h.entities type).put_copy hfits.nonempty hfits.isCopy hfits.oneSpace

end Shaped

end Memory

/-- A put copy leaves the places of all copies in its space as they were. -/
theorem Documents.Orderly.placeOf_put_copy {docs : Documents} (h : docs.Orderly) {id : String}
    {body : Table Json} (hfits : Documents.Fits target id body) (other : String) :
    placeOf (Table.put docs (docs.placeOf target id) body) target other =
      docs.placeOf target other := by
  by_cases hother : other = id
  · subst hother
    have hput := h.copyOf?_put_copy hfits.nonempty hfits.isCopy hfits.oneSpace
    conv_lhs => rw [placeOf, hput]
  · exact h.placeOf_eq_of_others (h.put_copy hfits.nonempty hfits.isCopy hfits.oneSpace)
      (h.others_put_copy hfits.isCopy) fun _ hmem => hother (List.mem_singleton.mp hmem)

/-- A policy that is put under a storage id of its space, in place of the earlier one, leaves an
index of policies orderly. -/
theorem Documents.OrderlyPolicies.put {docs : Documents} (h : docs.OrderlyPolicies) {key : String}
    {body : Table Json} (hbody : ∀ other, Scope.belongs other body = true ↔ other = target)
    (hkey : ∀ entry ∈ docs, entry.1 = key ↔ Scope.belongs target entry.2 = true)
    (hmade : ∀ (other : Space) id,
      ({} : ContentSettings).documentId other.name id = .ok key → other = target) :
    OrderlyPolicies (Table.put docs key body) := by
  have hmem := h.distinct.mem_put key body
  -- what is left of the earlier documents belongs to other spaces
  have hold : ∀ entry ∈ docs, entry.1 ≠ key → Scope.belongs target entry.2 ≠ true :=
    fun entry hentry hne hbelongs => hne ((hkey entry hentry).mpr hbelongs)
  refine ⟨h.distinct.put key body, ?_, ?_, ?_⟩
  · intro entry hentry a b ha hb
    rcases (hmem entry).mp hentry with rfl | ⟨hin, -⟩
    · rw [(hbody a).mp ha, (hbody b).mp hb]
    · exact h.oneSpace entry hin a b ha hb
  · intro entry hentry other hother space hin hin'
    rcases (hmem entry).mp hentry with rfl | ⟨hentry, hne⟩ <;>
      rcases (hmem other).mp hother with rfl | ⟨hother, hne'⟩
    · rfl
    · exact absurd ((hbody space).mp hin ▸ hin') (hold other hother hne')
    · exact absurd ((hbody space).mp hin' ▸ hin) (hold entry hentry hne)
    · exact h.onePolicy entry hentry other hother space hin hin'
  · intro entry hentry space id hplace
    rcases (hmem entry).mp hentry with rfl | ⟨hin, -⟩
    · exact (hbody space).mpr (hmade space id hplace)
    · exact h.placed entry hin space id hplace

/-! ### Bodies that are written -/

namespace Content.Shaped

variable {body : Table Json}

/-- The body of a copy of an entity has a shape. -/
theorem successorBody (h : Shaped body) (hid : idOf body ≠ "") (target : Space) :
    Shaped (Commit.successorBody body target) := by
  obtain ⟨⟨space, fields, hspace, -⟩, -⟩ := h
  refine ⟨⟨target, _, get?_space_successorBody hspace target, ?_⟩,
    ⟨_, get?_document_successorBody hid target⟩⟩
  rw [Table.get?_put, if_pos rfl]

/-- What a policy is saved as in the shape of an earlier body has a shape. -/
theorem savedBody (h : Shaped body) (target : Space) (document : Policy) :
    Shaped (Policies.savedBody target document body) := by
  obtain ⟨⟨space, fields, hspace, -⟩, -⟩ := h
  refine ⟨⟨target, _, Policies.get?_space_savedBody hspace document, ?_⟩,
    ⟨_, Policies.get?_document_savedBody document⟩⟩
  rw [Table.get?_put, if_pos rfl]

end Content.Shaped

namespace Memory.Shaped

open Policies

/-- A policy that is saved over that of its space, or as a new one in the shape of another, keeps
the shape of the contents. -/
theorem save (h : memory.Shaped) (hmapped : memory.Mapped) {current shape : Option PolicyRecord}
    (hcurrent : found? memory target = .ok current)
    (hshape : current = none → ∃ record space, shape = some record ∧
      found? memory space = .ok (some record)) (document : Policy) (time : Instant) :
    (memory.apply (saveCall target document current shape time)).Shaped := by
  have hindex : ".cti-policies" ∈ contentIndexes := by decide
  set place := placeOf target document current shape with hplace
  -- the body is made from that of a policy that is stored
  obtain ⟨origin, hbase, hbelongs⟩ : ∃ space, (∃ key, (key, place.2) ∈ memory.policies) ∧
      Scope.belongs space place.2 = true := by
    cases current with
    | some record =>
      obtain ⟨hmem, hbelongs⟩ := mem_of_found hmapped hcurrent
      exact ⟨target, ⟨_, hmem⟩, hbelongs⟩
    | none =>
      obtain ⟨record, space, rfl, hrecord⟩ := hshape rfl
      obtain ⟨hmem, hbelongs⟩ := mem_of_found hmapped hrecord
      exact ⟨space, ⟨_, hmem⟩, hbelongs⟩
  obtain ⟨key, hmem⟩ := hbase
  have hbody := (h.bodies _ hindex _ hmem).savedBody target (stamped document time)
  have hcall : saveCall target document current shape time =
      .upsert ".cti-policies" place.1 (savedBody target (stamped document time) place.2) := rfl
  rw [hcall]
  refine h.apply_policy rfl (fun _ _ _ heq => by cases heq; exact hbody) ?_
  have hdocs : (memory.apply (.upsert ".cti-policies" place.1
      (savedBody target (stamped document time) place.2))).policies =
        Table.put memory.policies place.1 (savedBody target (stamped document time) place.2) :=
    documents_put memory _ _ _
  rw [hdocs]
  rw [found?_eq hmapped] at hcurrent
  refine h.policies.put (belongs_savedBody hbelongs _)
    (Documents.key_placeOf h.policies hcurrent document shape) fun other id hmade => ?_
  cases current with
  | some record =>
    obtain ⟨hin, htarget⟩ := Documents.policyOf?_mem (Documents.stored?_eq_some hcurrent).1
    exact h.oneSpace hindex _ hin other target
      (h.policies.placed _ hin other id hmade) htarget
  | none =>
    rw [documentId_eq] at hmade
    exact (renderedId_injective (Except.ok.inj hmade)).1

end Memory.Shaped

/-! ### Commits -/

/-- In orderly contents with the default mapping a lookup finds the copy there is. -/
theorem Memory.copy?_eq (hmapped : memory.Mapped) {type : EntityType}
    (h : (memory.entities type).Orderly) {ids : List String} {id : String} (hid : id ∈ ids)
    (space : Space) :
    memory.copy? type ids space id = (memory.entities type).copyOf? space id := by
  rw [copy?, copies, Documents.copyOf?, ← List.head?_filter, ← List.head?_filter,
    List.filter_filter]
  congr 1
  apply List.filter_congr
  intro entry hentry
  have hidOf := h.identified entry hentry
  rw [asked_eq (hmapped.mapping (indexFor_mem type)), Content.hasIdAmong_eq hidOf,
    Content.shownId?_eq hidOf, Content.isCopy]
  by_cases heq : Content.idOf entry.2 = id
  · simp [heq, hid]
  · have hne : (Content.idOf entry.2 == id) = false := by simpa using heq
    simp [hne]

/-- Copies that are put one after another, each where it belongs, keep the shape. -/
theorem Memory.Shaped.replay_copies (h : memory.Shaped) {type : EntityType}
    {place : String → String} {body : String → Table Json} {ids : List String}
    (hplace : ∀ id ∈ ids, place id = (memory.entities type).placeOf target id)
    (hfits : ∀ id ∈ ids, Documents.Fits target id (body id))
    (hbodies : ∀ id ∈ ids, Content.Shaped (body id)) :
    (memory.replay (ids.map fun id =>
      .upsert (({} : ContentSettings).indexFor type) (place id) (body id))).Shaped := by
  -- the places were told by the contents before the first copy, and are the same behind it
  induction ids generalizing memory with
  | nil => exact h
  | cons id rest ih =>
    have hfit := hfits id List.mem_cons_self
    have hput : (memory.apply (.upsert (({} : ContentSettings).indexFor type)
        ((memory.entities type).placeOf target id) (body id))).Shaped :=
      h.put_copy hfit (hbodies id List.mem_cons_self)
    rw [List.map_cons, Memory.replay_cons, hplace id List.mem_cons_self]
    refine ih hput (fun other hother => ?_) (fun other hother => hfits other (.tail _ hother))
      (fun other hother => hbodies other (.tail _ hother))
    have hdocs : (memory.apply (.upsert (({} : ContentSettings).indexFor type)
        ((memory.entities type).placeOf target id) (body id))).entities type =
          Table.put (memory.entities type) ((memory.entities type).placeOf target id) (body id) :=
      Memory.documents_put memory _ _ _
    rw [hdocs, (h.entities type).placeOf_put_copy hfit, hplace other (.tail _ hother)]

/-- Removals of entities one after another keep the shape. -/
theorem Memory.Shaped.replay_deletions (h : memory.Shaped) (type : EntityType) {calls : List Call}
    (hcalls : ∀ call ∈ calls, ∃ key, call = .delete (({} : ContentSettings).indexFor type) key) :
    (memory.replay calls).Shaped := by
  induction calls generalizing memory with
  | nil => exact h
  | cons call rest ih =>
    obtain ⟨key, rfl⟩ := hcalls call List.mem_cons_self
    exact ih (h.delete type key) fun other hother => hcalls other (.tail _ hother)

namespace Commit

open Policies

variable {plan : EntityType → List Change} {time : Instant}

/-- The copies that a stage writes. -/
theorem shaped_of_writes (h : memory.Shaped) (hmapped : memory.Mapped) {type : EntityType}
    (hnone : missing plan space memory type = []) {ids : List String}
    (hids : ∀ id ∈ ids, id ∈ writeIds plan type) :
    (memory.replay (ids.map fun id =>
      .upsert (({} : ContentSettings).indexFor type) (placeIn plan target memory type id)
        (bodyIn plan space target memory type id))).Shaped := by
  have horderly := h.entities type
  -- no source is missing
  have hsource : ∀ id ∈ ids, ∃ entry ∈ memory.entities type,
      Content.isCopy space id entry.2 = true ∧
        bodyIn plan space target memory type id = successorBody entry.2 target := by
    intro id hid
    have hfound : (memory.copy? type (writeIds plan type) space id).isSome = true := by
      by_contra hnot
      have hmissing : id ∈ missing plan space memory type :=
        List.mem_filter.mpr ⟨hids id hid, by simpa using hnot⟩
      rw [hnone] at hmissing
      cases hmissing
    obtain ⟨entry, hentry⟩ := Option.isSome_iff_exists.mp hfound
    have hcopy := hentry
    rw [Memory.copy?_eq hmapped horderly (hids id hid)] at hcopy
    obtain ⟨hmem, hcopy⟩ := Documents.copyOf?_mem hcopy
    exact ⟨entry, hmem, hcopy, by rw [bodyIn, hentry]; rfl⟩
  have hplace : ∀ id ∈ ids, placeIn plan target memory type id =
      (memory.entities type).placeOf target id := by
    intro id hid
    rw [placeIn, Memory.copy?_eq hmapped horderly (hids id hid)]
    rfl
  refine h.replay_copies hplace ?_ ?_
  · intro id hid
    obtain ⟨entry, hmem, hcopy, hbody⟩ := hsource id hid
    have hidOf := ((Content.isCopy_iff _ _ _).mp hcopy).2
    rw [hbody]
    exact Content.fits_successorBody (hidOf ▸ horderly.identified entry hmem) hcopy
  · intro id hid
    obtain ⟨entry, hmem, hcopy, hbody⟩ := hsource id hid
    rw [hbody]
    exact (h.bodies _ (indexFor_mem type) entry hmem).successorBody
      (horderly.identified entry hmem) target

/-- However far a stage comes, it keeps the shape. -/
theorem Stage.shaped (h : memory.Shaped) (hmapped : memory.Mapped) {stage : Stage}
    {calls made : List Call} (hcalls : stage.calls plan space target time memory = .ok calls)
    (hmade : made <+: calls) : (memory.replay made).Shaped := by
  cases stage with
  | write type =>
    rw [Stage.calls] at hcalls
    split at hcalls
    · next hnone =>
      rw [← Except.ok.inj hcalls] at hmade
      -- the calls made so far are those of a beginning of the ids
      obtain ⟨ids, hids, rfl⟩ := List.prefix_map_iff.mp hmade
      exact shaped_of_writes h hmapped hnone fun id hid => hids.subset hid
    · cases hcalls
  | policy =>
    obtain ⟨source, current, hsource, hcurrent, rfl⟩ := policy_calls_eq_ok_iff.mp hcalls
    rw [policyCalls] at hmade
    split at hmade
    · rw [List.prefix_nil.mp hmade]
      exact h
    · cases made with
      | nil => exact h
      | cons call rest =>
        obtain ⟨rfl, hrest⟩ := List.cons_prefix_cons.mp hmade
        rw [List.prefix_nil.mp hrest]
        exact h.save hmapped hcurrent (fun _ => ⟨source, space, rfl, hsource⟩) _ _
  | remove type =>
    rw [Stage.calls] at hcalls
    rw [← Except.ok.inj hcalls] at hmade
    refine h.replay_deletions type fun call hcall => ?_
    obtain ⟨id, -, hkey⟩ := List.mem_filterMap.mp (hmade.subset hcall)
    obtain ⟨key, -, rfl⟩ := Option.map_eq_some_iff.mp hkey
    exact ⟨key, rfl⟩

/-- However far a commit comes in its schedule, it keeps the shape. -/
theorem shaped_of_prefix_schedule (h : memory.Shaped) (hmapped : memory.Mapped)
    {stages : List Stage} {calls : List Call}
    (hcalls : calls <+: schedule (Stage.calls plan space target time) stages memory) :
    (memory.replay calls).Shaped := by
  -- the contents that a stage leaves have the shape that the next one needs
  induction stages generalizing memory calls with
  | nil =>
    rw [List.prefix_nil.mp hcalls]
    exact h
  | cons stage rest ih =>
    cases hasked : stage.calls plan space target time memory with
    | error fault =>
      rw [schedule, hasked, List.prefix_nil] at hcalls
      rw [hcalls]
      exact h
    | ok asked =>
      rw [schedule_cons hasked] at hcalls
      rcases prefix_within_or_behind hcalls with hwithin | ⟨more, hmore, rfl⟩
      · exact Stage.shaped h hmapped hasked hwithin
      · rw [Memory.replay_append]
        exact ih (Stage.shaped h hmapped hasked (List.prefix_refl _)) (hmapped.replay asked) hmore

/-- However a promotion ends, what it has written is a beginning of a schedule. -/
theorem exists_schedule_of_promote {deployment : Deployment} {world : World}
    (h : deployment.Standard) (hworld : world.Probed) (space : Space) (submitted : ChangeSet) :
    ∃ done failed, world.After done failed ((promote space submitted).runOn deployment world).2 ∧
      ∃ plan target time stages,
        done <+: schedule (Stage.calls plan space target time) stages world.memory := by
  have hnothing : ∀ later failed, world.After [] failed later → ∃ done failed,
      world.After done failed later ∧ ∃ plan target time stages,
        done <+: schedule (Stage.calls plan space target time) stages world.memory :=
    fun later failed hafter =>
      ⟨[], failed, hafter, fun _ => [], .draft, 0, [], List.nil_prefix⟩
  cases htarget : space.target? with
  | none =>
    have hrun : (promote space submitted).runOn deployment world =
        (.error (.notAllowed space.name Action.promote.name), world) := by
      rw [promote, Work.runOn_bind, Work.runOn_ofExcept, Preview.successor, htarget]
    rw [hrun]
    exact hnothing world none (.refl world)
  | some target =>
    obtain ⟨outcome, later, done, failed, hrun, hafter, hcourse⟩ :=
      promote_course h hworld htarget submitted
    rw [hrun]
    -- the gate stops it, or the ledger does, or its commit has begun
    rcases hcourse with ⟨_, _, _, _, rfl, _⟩ | ⟨_, _, ⟨_, _, _, _, rfl, _⟩ | hcommit⟩
    · exact hnothing later failed hafter
    · exact hnothing later failed hafter
    · obtain ⟨fresh, read, time, -, hcourse⟩ := hcommit
      exact ⟨done, failed, hafter, _, target, time, _,
        (List.prefix_append done failed.toList).trans hcourse.issued⟩

end Commit

end Lifecycle
