import Lifecycle.Proofs.Change
import Lifecycle.Proofs.Listing

/-!
# What the steps of a commit write

Each step of a commit reads the copies that it is about and then makes its calls. The step for a
type of entity makes the calls for its copies if the space still has all sources
(`performs_write`), and none at all if it has not (`performs_write_stale`); the step that removes
copies makes the calls for their removal (`performs_remove`).

Steps for different types are about different indexes, so that the calls of a whole pass can be told
from the contents it starts with (`performs_writeAll`, `performs_removeAll`).
-/

namespace Lifecycle.Commit

variable {deployment : Deployment} {world : World} {type : EntityType} {space target : Space}
  {bare : Prop}

/-! ### Writing the copies of a type -/

def counted (changes : List Change) (counts : Counts) : Counts :=
  changes.foldl (fun counts change => Counts.add counts change.operation) counts

/-- Writing copies makes a call for each change, with the storage id and the body for its id. -/
theorem performs_writeCopies_of (h : deployment.Standard) {place : String → String}
    {body : String → Table Json} {sources existing : Table Hit} {changes : List Change}
    (hbodies : ∀ change ∈ changes,
      successorBody (sourceOf sources change.id) target = body change.id)
    (hplaces : ∀ change ∈ changes,
      storageId deployment.settings existing target change.id = .ok (place change.id))
    (counts : Counts) :
    (writeCopies deployment.settings type target sources existing changes counts).Performs
      deployment world ((Change.ids changes).map fun id =>
        .upsert (({} : ContentSettings).indexFor type) (place id) (body id))
      (.ok (counted changes counts)) bare := by
  induction changes generalizing world counts with
  | nil => exact Work.performs_pure counts
  | cons change rest ih =>
    rw [writeCopies, hplaces change List.mem_cons_self, hbodies change List.mem_cons_self,
      h.indexFor type]
    refine (Work.performs_ofExcept (.ok _)).read_bind fun later _ => ?_
    exact (Store.performs_upsert h.backend _ _ _).bind fun last _ =>
      ih (fun other hother => hbodies other (List.mem_cons_of_mem _ hother))
        (fun other hother => hplaces other (List.mem_cons_of_mem _ hother)) _

theorem performs_writeCopies (h : deployment.Standard) {docs : Documents}
    {sources existing : Table Hit} {changes : List Change}
    (hsources : ∀ change ∈ changes, sourceOf sources change.id =
      ((docs.copyOf? space change.id).map Prod.snd).getD [])
    (hplaces : ∀ change ∈ changes,
      storageId deployment.settings existing target change.id =
        .ok (docs.placeOf target change.id)) (counts : Counts) :
    (writeCopies deployment.settings type target sources existing changes counts).Performs
      deployment world (copyCalls docs type space target (Change.ids changes))
      (.ok (counted changes counts)) := by
  apply performs_writeCopies_of h _ hplaces
  intro change hmem
  rw [hsources change hmem]
  rfl

/-- The ids of changes without a copy in a space. -/
def missingIn (docs : Documents) (space : Space) (changes : List Change) : List String :=
  (Change.ids changes).filter fun id => !(docs.copyOf? space id).isSome

theorem missingIn_eq_nil_iff (docs : Documents) (space : Space) (changes : List Change) :
    missingIn docs space changes = [] ↔ ∀ id ∈ Change.ids changes, docs.Has space id := by
  rw [missingIn, List.filter_eq_nil_iff]
  exact forall₂_congr fun id _ => by
    rw [Bool.not_eq_true', Bool.not_eq_false, Documents.Has]

/-- The ids that are not among the copies of them in a space. -/
theorem filter_has_copiesIn {docs : Documents} (h : docs.Orderly) (space : Space)
    (changes : List Change) (view : Table Json → Table Json) :
    (changes.map Change.id).filter (fun id =>
        !(copiesIn docs space (changes.map Change.id) view).has id) =
      missingIn docs space changes := by
  apply List.filter_congr
  intro id hmem
  rw [Table.has, get?_copiesIn h space view hmem, Option.isSome_map]

section

variable (h : deployment.Standard) (hworld : world.Standing) {docs : Documents}
  (hdocs : world.memory.entities type = docs) (horderly : docs.Orderly)

include h hworld hdocs horderly

theorem performs_copies_whole (ids : List String) (space : Space) :
    (copies type ids space .null).Performs deployment world []
      (.ok (copiesIn docs space ids fun body => body)) :=
  performs_copies h hworld hdocs horderly ids space (fun _ => rfl) fun _ _ => rfl

theorem performs_copies_id (ids : List String) (space : Space) :
    (copies type ids space (Json.texts ["document.id"])).Performs deployment world []
      (.ok (copiesIn docs space ids Content.idView)) :=
  performs_copies h hworld hdocs horderly ids space Content.projected_id
    fun _ => Content.idOf_idView

/-- A write makes the calls for its copies if the space has all sources. -/
theorem performs_write (target : Space) {changes : List Change}
    (hhas : ∀ id ∈ Change.ids changes, docs.Has space id) :
    (write type changes space target).Performs deployment world
      (copyCalls docs type space target (Change.ids changes)) (.ok (counted changes [])) := by
  rw [write]
  refine Work.performs_settings.read_bind fun settled hsettled => ?_
  have hdocs' : settled.memory.entities type = docs := by rw [hsettled.memory_eq, hdocs]
  have hsettled := hworld.after hsettled
  refine (performs_copies_whole h hsettled hdocs' horderly _ space).read_bind fun later hlater => ?_
  have hdocs' : later.memory.entities type = docs := by rw [hlater.memory_eq, hdocs']
  have hlater := hsettled.after hlater
  rw [filter_has_copiesIn horderly, (missingIn_eq_nil_iff docs space changes).mpr hhas]
  refine (performs_copies_id h hlater hdocs' horderly _ target).read_bind fun last _ => ?_
  apply performs_writeCopies h
  · intro change hmem
    rw [sourceOf, get?_copiesIn horderly space _ (List.mem_map_of_mem hmem), Option.map_map]
    rfl
  · intro change hmem
    rw [storageId, get?_copiesIn horderly target _ (List.mem_map_of_mem hmem), Documents.placeOf]
    cases docs.copyOf? target change.id with
    | none => rw [h.documentId, documentId_eq]; rfl
    | some entry => rfl

/-- A write makes no calls if the space has not all sources. -/
theorem performs_write_stale (target : Space) {changes : List Change}
    (hmissing : ¬∀ id ∈ Change.ids changes, docs.Has space id) :
    (write type changes space target).Performs deployment world []
      (.error (.stale type.name (missingIn docs space changes))) := by
  rw [write]
  refine Work.performs_settings.read_bind fun settled hsettled => ?_
  have hdocs' : settled.memory.entities type = docs := by rw [hsettled.memory_eq, hdocs]
  have hsettled := hworld.after hsettled
  refine (performs_copies_whole h hsettled hdocs' horderly _ space).read_bind fun later _ => ?_
  rw [filter_has_copiesIn horderly]
  rw [← missingIn_eq_nil_iff] at hmissing
  cases hlist : missingIn docs space changes with
  | nil => exact absurd hlist hmissing
  | cons id rest => exact (Work.performs_throw _).bind_error

end

/-! ### Removing the copies of a type -/

/-- Removing copies makes a call for each copy that is there. -/
theorem performs_removeCopies_of (h : deployment.Standard) {key : String → Option String}
    {existing : Table Hit} {ids : List String}
    (hexisting : ∀ id ∈ ids, (existing.get? id).map Hit.id = key id) (count : Nat) :
    (removeCopies (({} : ContentSettings).indexFor type) existing ids count).Performs deployment
      world (ids.filterMap fun id =>
        (key id).map fun place => .delete (({} : ContentSettings).indexFor type) place)
      (.ok (count + ids.countP fun id => (key id).isSome)) bare := by
  induction ids generalizing world count with
  | nil => exact Work.performs_pure count
  | cons id rest ih =>
    have hrest : ∀ other ∈ rest, (existing.get? other).map Hit.id = key other :=
      fun other hother => hexisting other (List.mem_cons_of_mem _ hother)
    have hkey := hexisting id List.mem_cons_self
    rw [removeCopies, List.filterMap_cons]
    cases hfound : existing.get? id with
    | none =>
      rw [hfound, Option.map_none] at hkey
      rw [← hkey, List.countP_cons_of_neg (by simp [← hkey])]
      exact ih hrest count
    | some hit =>
      rw [hfound, Option.map_some] at hkey
      have hcount : count + List.countP (fun id => (key id).isSome) (id :: rest) =
          count + 1 + List.countP (fun id => (key id).isSome) rest := by
        rw [List.countP_cons_of_pos (by simp [← hkey])]
        omega
      rw [← hkey, hcount]
      exact (Store.performs_delete h.backend _ _).bind fun later _ => ih hrest (count + 1)

/-- How many of some entities have a copy in a space. -/
def present (docs : Documents) (target : Space) (ids : List String) : Nat :=
  ids.countP fun id => (docs.copyOf? target id).isSome

theorem performs_removeCopies (h : deployment.Standard) {docs : Documents} {existing : Table Hit}
    {ids : List String}
    (hexisting : ∀ id ∈ ids, existing.get? id =
      (docs.copyOf? target id).map (Store.toHit Content.idView)) (count : Nat) :
    (removeCopies (({} : ContentSettings).indexFor type) existing ids count).Performs deployment
      world (removalCalls docs type target ids) (.ok (count + present docs target ids)) := by
  have hkeys : ∀ id ∈ ids,
      (existing.get? id).map Hit.id = (docs.copyOf? target id).map Prod.fst := by
    intro id hmem
    rw [hexisting id hmem, Option.map_map]
    rfl
  have hremove : (removeCopies (({} : ContentSettings).indexFor type) existing ids count).Performs
      deployment world _ _ := performs_removeCopies_of h hkeys count
  simpa only [removalCalls, present, Option.map_map, Option.isSome_map, Function.comp_def]
    using hremove

/-- A step that removes copies makes the calls for their removal. -/
theorem performs_remove (h : deployment.Standard) (hworld : world.Standing) {docs : Documents}
    (hdocs : world.memory.entities type = docs) (horderly : docs.Orderly) (target : Space)
    (changes : List Change) :
    (remove type changes target).Performs deployment world
      (removalCalls docs type target (Change.ids changes))
      (.ok (present docs target (Change.ids changes))) := by
  rw [remove]
  refine Work.performs_settings.read_bind fun settled hsettled => ?_
  have hdocs' : settled.memory.entities type = docs := by rw [hsettled.memory_eq, hdocs]
  have hsettled := hworld.after hsettled
  refine (performs_copies_id h hsettled hdocs' horderly _ target).read_bind fun later _ => ?_
  rw [h.indexFor type, ← Nat.zero_add (present docs target (Change.ids changes))]
  apply performs_removeCopies h
  intro id hmem
  exact get?_copiesIn horderly target _ hmem

/-- The calls for removals, and their number, depend on the copies only that are removed. -/
theorem removalCalls_congr (type : EntityType) {docs other : Documents} {ids : List String}
    (h : ∀ id ∈ ids, other.copyOf? target id = docs.copyOf? target id) :
    removalCalls other type target ids = removalCalls docs type target ids ∧
      present other target ids = present docs target ids := by
  constructor
  · exact List.filterMap_congr fun id hmem => by rw [h id hmem]
  · exact List.countP_congr fun id hmem => by rw [h id hmem]

/-! ### All types -/

/-- A step gives its faults another name, and leaves what it does when there is none. -/
theorem performs_step {α : Type} {work : Work α} {script : List Call} {value : α} (name : String)
    (h : work.Performs deployment world script (.ok value)) :
    (step name work).Performs deployment world script (.ok value) := by
  apply h.tryCatch_throw
  intro fault
  cases fault with
  | stale type missing => exact ⟨.stale type missing, rfl⟩
  | _ => exact ⟨.step name _, rfl⟩

/-- A step that has a value is work that has it. -/
theorem runOn_of_step {α : Type} {work : Work α} {name : String} {value : α} {later : World}
    (h : (step name work).runOn deployment world = (.ok value, later)) :
    work.runOn deployment world = (.ok value, later) := by
  rw [step, Work.runOn_tryCatch] at h
  rcases hrun : work.runOn deployment world with ⟨outcome, after⟩
  rw [hrun] at h
  cases outcome with
  | ok found => exact h
  | error fault =>
    cases fault <;> cases (Prod.mk.inj h).1

section

variable {plan : EntityType → List Change} {docs : EntityType → Documents}

/-- The ids of the copies that are planned to be written. -/
def writeIds (plan : EntityType → List Change) (type : EntityType) : List String :=
  Change.ids (Change.writes (plan type))

/-- The ids of the copies that are planned to be removed. -/
def removalIds (plan : EntityType → List Change) (type : EntityType) : List String :=
  Change.ids (Change.removals (plan type))

/-- The counts after the copies of some types are written. -/
def writtenCounts (plan : EntityType → List Change) (types : List EntityType)
    (applied : Table Counts) : Table Counts :=
  types.foldl (fun applied type =>
    if (Change.writes (plan type)).isEmpty then applied
    else record applied type (counted (Change.writes (plan type)) [])) applied

/-- The counts after the copies of some types are removed. -/
def removedCounts (docs : EntityType → Documents) (plan : EntityType → List Change)
    (target : Space) (types : List EntityType) (applied : Table Counts) : Table Counts :=
  types.foldl (fun applied type =>
    if (Change.removals (plan type)).isEmpty then applied
    else record applied type
      [(Operation.remove.name, present (docs type) target (removalIds plan type))]) applied

/-- Calls about a type leave the documents of another one. -/
theorem entities_after {later : World} {calls : List Call} {other : EntityType}
    (hafter : world.After calls none later)
    (hindex : ∀ call ∈ calls, call.index = ({} : ContentSettings).indexFor type)
    (hne : type ≠ other) : later.memory.entities other = world.memory.entities other := by
  rw [hafter.memory]
  apply Memory.documents_replay_of_ne
  intro call hcall heq
  rw [hindex call hcall] at heq
  exact hne (indexFor_injective heq)

/-- A pass over types that writes their copies makes the calls for them, if the space has all
sources. -/
theorem performs_writeAll (h : deployment.Standard) (hworld : world.Standing)
    {types : List EntityType} (hdistinct : types.Nodup)
    (hdocs : ∀ type ∈ types, world.memory.entities type = docs type)
    (horderly : ∀ type, (docs type).Orderly)
    (hhas : ∀ type ∈ types, ∀ id ∈ writeIds plan type, (docs type).Has space id)
    (applied : Table Counts) :
    (writeAll plan space target types applied).Performs deployment world
      (types.flatMap fun type => copyCalls (docs type) type space target (writeIds plan type))
      (.ok (writtenCounts plan types applied)) := by
  induction types generalizing world applied with
  | nil => exact Work.performs_pure applied
  | cons type rest ih =>
    obtain ⟨hnew, hrest⟩ := List.nodup_cons.mp hdistinct
    rw [writeAll, List.flatMap_cons, writtenCounts, List.foldl_cons]
    cases hchanges : Change.writes (plan type) with
    | nil =>
      have hnone : writeIds plan type = [] := by rw [writeIds, hchanges]; rfl
      rw [hnone]
      exact ih hworld hrest (fun other hother => hdocs other (List.mem_cons_of_mem _ hother))
        (fun other hother => hhas other (List.mem_cons_of_mem _ hother)) applied
    | cons change changes =>
      have hwrite := performs_step type.name (performs_write h hworld
        (hdocs type List.mem_cons_self) (horderly type) target (hhas type List.mem_cons_self))
      have hids : writeIds plan type = Change.ids (change :: changes) := by rw [writeIds, hchanges]
      rw [hchanges] at hwrite
      rw [hids]
      refine hwrite.bind fun later hlater => ?_
      -- the types that follow have indexes of their own, which the calls have left
      refine ih (hworld.after hlater) hrest (fun other hother => ?_)
        (fun other hother => hhas other (List.mem_cons_of_mem _ hother)) _
      rw [← hdocs other (List.mem_cons_of_mem _ hother)]
      apply entities_after hlater (fun call => index_of_mem_copyCalls)
      rintro rfl
      exact hnew hother

/-- A pass over types that removes copies makes the calls for their removal. -/
theorem performs_removeAll (docs : EntityType → Documents) (h : deployment.Standard)
    (hworld : world.Standing) {types : List EntityType} (hdistinct : types.Nodup)
    (horderly : ∀ type ∈ types, (world.memory.entities type).Orderly)
    (hdocs : ∀ type ∈ types, ∀ id ∈ removalIds plan type,
      (world.memory.entities type).copyOf? target id = (docs type).copyOf? target id)
    (applied : Table Counts) :
    (removeAll plan target types applied).Performs deployment world
      (types.flatMap fun type => removalCalls (docs type) type target (removalIds plan type))
      (.ok (removedCounts docs plan target types applied)) := by
  induction types generalizing world applied with
  | nil => exact Work.performs_pure applied
  | cons type rest ih =>
    obtain ⟨hnew, hrest⟩ := List.nodup_cons.mp hdistinct
    rw [removeAll, List.flatMap_cons, removedCounts, List.foldl_cons]
    cases hchanges : Change.removals (plan type) with
    | nil =>
      have hnone : removalIds plan type = [] := by rw [removalIds, hchanges]; rfl
      rw [hnone]
      exact ih hworld hrest (fun other hother => horderly other (List.mem_cons_of_mem _ hother))
        (fun other hother => hdocs other (List.mem_cons_of_mem _ hother)) applied
    | cons change changes =>
      obtain ⟨hcalls, hcount⟩ := removalCalls_congr type (hdocs type List.mem_cons_self)
      have hids : removalIds plan type = Change.ids (change :: changes) := by
        rw [removalIds, hchanges]
      have hremove := performs_step type.name (performs_remove h hworld rfl
        (horderly type List.mem_cons_self) target (change :: changes))
      -- the copies that are found now are those that the script was told from
      rw [← hids, hcalls, hcount] at hremove
      refine hremove.bind fun later hlater => ?_
      have hkeep : ∀ other ∈ rest,
          later.memory.entities other = world.memory.entities other := by
        intro other hother
        apply entities_after hlater (fun call => index_of_mem_removalCalls)
        rintro rfl
        exact hnew hother
      refine ih (hworld.after hlater) hrest (fun other hother => ?_) (fun other hother => ?_) _
      · rw [hkeep other hother]
        exact horderly other (List.mem_cons_of_mem _ hother)
      · rw [hkeep other hother]
        exact hdocs other (List.mem_cons_of_mem _ hother)

end

end Lifecycle.Commit
