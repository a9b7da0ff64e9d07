import Lifecycle.Proofs.Bodies
import Lifecycle.Proofs.Runs

/-!
# Scripts of commits

The writes of a commit are told from the contents it starts with: a copy of each added or updated
entity, type by type (`Commit.copyCalls`), the policy, and a removal of the copies of removed
entities (`Commit.removalCalls`). A call is about one index, so that the documents of a type are
changed by the calls for this type only (`entities_replay_flatMap`), and what these make of them is
said on the documents alone: copies are put, then copies are removed (`Documents.edited`).
-/

namespace Lifecycle

/-! ### Documents after calls -/

namespace Memory

variable {memory : Memory} {index other : String}

/-- The documents of a type of entity, under the default settings. -/
def entities (memory : Memory) (type : EntityType) : Documents :=
  memory.documents (({} : ContentSettings).indexFor type)

/-- The documents of the policies index, under the default settings. -/
def policies (memory : Memory) : Documents := memory.documents ".cti-policies"

theorem documents_ensureIndex (memory : Memory) (index other : String) :
    (memory.ensureIndex index).documents other = memory.documents other := by
  unfold ensureIndex
  by_cases h : memory.mappings.has index
  · rw [if_pos h]
  · rw [if_neg h, documents, createIndex]
    dsimp only
    rw [Table.get?_put]
    by_cases hindex : index = other
    · rw [if_pos hindex, hindex]
      rfl
    · rw [if_neg hindex]
      rfl

theorem documents_put (memory : Memory) (index id : String) (body : Table Json) :
    (memory.put index id body).documents index = Table.put (memory.documents index) id body := by
  rw [put, documents]
  dsimp only
  rw [Table.get?_put, if_pos rfl, documents_ensureIndex]
  rfl

theorem documents_delete (memory : Memory) (index id : String) :
    (memory.delete index id).documents index = Table.remove (memory.documents index) id := by
  unfold delete
  by_cases h : memory.indexes.has index
  · rw [if_pos h, documents]
    dsimp only
    rw [Table.get?_put, if_pos rfl]
    rfl
  · have hnone : memory.documents index = [] := by
      rw [Table.has, Bool.not_eq_true, Option.isSome_eq_false_iff, Option.isNone_iff_eq_none] at h
      rw [documents, h]
      rfl
    rw [if_neg h, hnone]
    rfl

theorem documents_apply_of_ne {call : Call} (h : call.index ≠ other) :
    (memory.apply call).documents other = memory.documents other := by
  cases call with
  | upsert index id body =>
    have hne : index ≠ other := h
    rw [apply, put, documents]
    dsimp only
    rw [Table.get?_put, if_neg hne]
    exact documents_ensureIndex memory index other
  | delete index id =>
    have hne : index ≠ other := h
    rw [apply, delete]
    split
    · rw [documents]
      dsimp only
      rw [Table.get?_put, if_neg hne]
      rfl
    · rfl
  | search _ _ => rfl
  | byIds _ _ => rfl
  | fieldCapabilities _ _ => rfl

theorem documents_replay_of_ne {calls : List Call} (h : ∀ call ∈ calls, call.index ≠ other) :
    (memory.replay calls).documents other = memory.documents other := by
  induction calls generalizing memory with
  | nil => rfl
  | cons call rest ih =>
    rw [replay_cons, ih fun call hcall => h call (List.mem_cons_of_mem _ hcall)]
    exact documents_apply_of_ne (h call List.mem_cons_self)

end Memory

/-- Each type of entity has an index of its own. -/
theorem indexFor_injective {type other : EntityType}
    (h : ({} : ContentSettings).indexFor type = ({} : ContentSettings).indexFor other) :
    type = other := by
  cases type <;> cases other <;> first | rfl | exact absurd h (by decide)

theorem indexFor_ne_policies (type : EntityType) :
    ({} : ContentSettings).indexFor type ≠ ".cti-policies" := by
  cases type <;> decide

namespace Memory

/-- Calls that are told for each type, and are about its index, change the documents of a type as
those told for it do. -/
theorem entities_replay_flatMap (change : EntityType → Documents → Documents)
    {calls : EntityType → List Call}
    (hindex : ∀ type, ∀ call ∈ calls type, call.index = ({} : ContentSettings).indexFor type)
    (hchange : ∀ type (memory : Memory),
      (memory.replay (calls type)).entities type = change type (memory.entities type))
    {types : List EntityType} (hdistinct : types.Nodup) (memory : Memory) (type : EntityType) :
    (memory.replay (types.flatMap calls)).entities type =
      if type ∈ types then change type (memory.entities type) else memory.entities type := by
  have hother : ∀ other (memory : Memory), other ≠ type →
      (memory.replay (calls other)).entities type = memory.entities type := by
    intro other memory hne
    apply documents_replay_of_ne
    intro call hcall heq
    rw [hindex other call hcall] at heq
    exact hne (indexFor_injective heq)
  induction types generalizing memory with
  | nil => rfl
  | cons first rest ih =>
    obtain ⟨hnew, hrest⟩ := List.nodup_cons.mp hdistinct
    rw [List.flatMap_cons, replay_append, ih hrest]
    by_cases hfirst : first = type
    · subst hfirst
      rw [if_neg hnew, if_pos List.mem_cons_self, hchange]
    · rw [hother first memory hfirst]
      simp [Ne.symm hfirst]

/-- Calls that are told for each type leave the policies. -/
theorem policies_replay_flatMap {calls : EntityType → List Call}
    (hindex : ∀ type, ∀ call ∈ calls type, call.index = ({} : ContentSettings).indexFor type)
    (memory : Memory) (types : List EntityType) :
    (memory.replay (types.flatMap calls)).policies = memory.policies := by
  apply documents_replay_of_ne
  intro call hcall heq
  obtain ⟨type, -, hmem⟩ := List.mem_flatMap.mp hcall
  rw [hindex type call hmem] at heq
  exact indexFor_ne_policies type heq

end Memory

/-! ### Calls for copies -/

namespace Commit

variable {memory : Memory} {type : EntityType} {space target : Space}

/-- The body of the copy of an entity that its space has. -/
def bodyFor (docs : Documents) (space target : Space) (id : String) : Table Json :=
  successorBody (((docs.copyOf? space id).map Prod.snd).getD []) target

/-- The writes that put copies of some entities of a type. -/
def copyCalls (docs : Documents) (type : EntityType) (space target : Space)
    (ids : List String) : List Call :=
  ids.map fun id => .upsert (({} : ContentSettings).indexFor type) (docs.placeOf target id)
    (bodyFor docs space target id)

/-- The writes that remove the copies of some entities of a type, where there are any. -/
def removalCalls (docs : Documents) (type : EntityType) (target : Space) (ids : List String) :
    List Call :=
  ids.filterMap fun id => (docs.copyOf? target id).map fun entry =>
    .delete (({} : ContentSettings).indexFor type) entry.1

theorem index_of_mem_copyCalls {docs : Documents} {ids : List String} {call : Call}
    (h : call ∈ copyCalls docs type space target ids) :
    call.index = ({} : ContentSettings).indexFor type := by
  obtain ⟨id, -, rfl⟩ := List.mem_map.mp h
  rfl

theorem index_of_mem_removalCalls {docs : Documents} {ids : List String} {call : Call}
    (h : call ∈ removalCalls docs type target ids) :
    call.index = ({} : ContentSettings).indexFor type := by
  obtain ⟨id, -, hcall⟩ := List.mem_filterMap.mp h
  obtain ⟨entry, -, rfl⟩ := Option.map_eq_some_iff.mp hcall
  rfl

/-- The calls for copies put them in the index of the type. -/
theorem entities_replay_copyCalls (docs : Documents) (ids : List String) :
    (memory.replay (copyCalls docs type space target ids)).entities type =
      ids.foldl (fun later id => Table.put later (docs.placeOf target id)
        (bodyFor docs space target id)) (memory.entities type) := by
  induction ids generalizing memory with
  | nil => rfl
  | cons id rest ih =>
    have hput : (memory.apply (.upsert (({} : ContentSettings).indexFor type)
        (docs.placeOf target id) (bodyFor docs space target id))).entities type =
        Table.put (memory.entities type) (docs.placeOf target id)
          (bodyFor docs space target id) :=
      Memory.documents_put memory _ _ _
    rw [List.foldl_cons, ← hput, ← ih]
    rfl

/-- The calls for removals take the copies from the index of the type. -/
theorem entities_replay_removalCalls (docs : Documents) (ids : List String) :
    (memory.replay (removalCalls docs type target ids)).entities type =
      ids.foldl (fun later id => later.takeOut (docs.copyOf? target id))
        (memory.entities type) := by
  induction ids generalizing memory with
  | nil => rfl
  | cons id rest ih =>
    rw [List.foldl_cons, removalCalls, List.filterMap_cons]
    cases docs.copyOf? target id with
    | none => exact ih
    | some entry =>
      have hremove : (memory.apply (.delete (({} : ContentSettings).indexFor type)
          entry.1)).entities type = Table.remove (memory.entities type) entry.1 :=
        Memory.documents_delete memory _ _
      rw [Documents.takeOut, ← hremove]
      exact ih

/-- The calls for the copies of all types put them in the indexes of the types. -/
theorem entities_replay_writes {docs : EntityType → Documents}
    (hdocs : ∀ type, memory.entities type = docs type) {types : List EntityType}
    (hdistinct : types.Nodup) (space target : Space) (ids : EntityType → List String)
    (type : EntityType) :
    (memory.replay (types.flatMap fun type =>
      copyCalls (docs type) type space target (ids type))).entities type =
      if type ∈ types then
        (docs type).putCopies target (bodyFor (docs type) space target) (ids type)
      else docs type := by
  rw [Memory.entities_replay_flatMap
    (fun type later => (ids type).foldl (fun later id =>
      Table.put later ((docs type).placeOf target id) (bodyFor (docs type) space target id)) later)
    (fun type call => index_of_mem_copyCalls)
    (fun type memory => entities_replay_copyCalls (docs type) (ids type)) hdistinct, hdocs]
  rfl

/-- The calls for the removal of copies of all types take them from the indexes of the types, as
long as these are the copies that are there. -/
theorem entities_replay_removals {docs : EntityType → Documents} {types : List EntityType}
    (hdistinct : types.Nodup) (target : Space) (ids : EntityType → List String)
    (type : EntityType) (hcopies : ∀ id ∈ ids type,
      (memory.entities type).copyOf? target id = (docs type).copyOf? target id) :
    (memory.replay (types.flatMap fun type =>
      removalCalls (docs type) type target (ids type))).entities type =
      if type ∈ types then (memory.entities type).removeCopies target (ids type)
      else memory.entities type := by
  rw [Memory.entities_replay_flatMap
    (fun type later => (ids type).foldl
      (fun later id => later.takeOut ((docs type).copyOf? target id)) later)
    (fun type call => index_of_mem_removalCalls)
    (fun type memory => entities_replay_removalCalls (docs type) (ids type)) hdistinct]
  split
  · apply List.foldl_ext
    intro later id hmem
    rw [hcopies id hmem]
  · rfl

end Commit

/-! ### Documents after copies are put and removed -/

namespace Documents

variable {docs : Documents} {space target : Space}

/-- The documents after the copies of some entities are put, and those of others removed. -/
def edited (docs : Documents) (space target : Space) (written removed : List String) : Documents :=
  (docs.putCopies target (Commit.bodyFor docs space target) written).removeCopies target removed

def Has (docs : Documents) (space : Space) (id : String) : Prop :=
  (docs.copyOf? space id).isSome = true

instance (docs : Documents) (space : Space) (id : String) : Decidable (docs.Has space id) :=
  inferInstanceAs (Decidable ((docs.copyOf? space id).isSome = true))

/-- What a space has a copy of has an id. -/
theorem Orderly.ne_empty_of_has (h : docs.Orderly) {id : String} (hhas : docs.Has space id) :
    id ≠ "" := by
  obtain ⟨entry, hfound⟩ := Option.isSome_iff_exists.mp hhas
  obtain ⟨hmem, hcopy⟩ := copyOf?_mem hfound
  rw [← ((Content.isCopy_iff space id entry.2).mp hcopy).2]
  exact h.identified entry hmem

/-- The body that is made from the copy in a space fits the place of the copy in its successor. -/
theorem fits_bodyFor (h : docs.Orderly) (target : Space) {id : String} (hhas : docs.Has space id) :
    Fits target id (Commit.bodyFor docs space target id) := by
  obtain ⟨entry, hfound⟩ := Option.isSome_iff_exists.mp hhas
  rw [Commit.bodyFor, hfound]
  exact Content.fits_successorBody (h.ne_empty_of_has hhas) (copyOf?_mem hfound).2

/-- What copies an index has after copies are put and others removed: it is orderly, has the new
copies and none of those removed, and all other documents as they were. -/
theorem edited_changed (h : docs.Orderly) (target : Space) {written removed : List String}
    (hdistinct : (written ++ removed).Nodup) (hhas : ∀ id ∈ written, docs.Has space id) :
    docs.Changed (docs.edited space target written removed) target (written ++ removed) ∧
      (∀ id ∈ written, (docs.edited space target written removed).copyOf? target id =
        some (docs.placeOf target id, Commit.bodyFor docs space target id)) ∧
      ∀ id ∈ removed, (docs.edited space target written removed).copyOf? target id = none := by
  obtain ⟨hwritten, hremoved, hapart⟩ := List.nodup_append.mp hdistinct
  obtain ⟨hput, hcopies⟩ := putCopies_changed h target hwritten fun id hmem =>
    fits_bodyFor h target (hhas id hmem)
  obtain ⟨hremove, hgone⟩ := removeCopies_changed hput.orderly target hremoved
  refine ⟨hput.trans hremove, fun id hmem => ?_, hgone⟩
  rw [edited, hremove.copyOf?_eq hput.orderly, hcopies id hmem]
  exact fun _ hin => hapart id hmem id hin rfl

end Documents

end Lifecycle
