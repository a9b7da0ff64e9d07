import Lifecycle.Proofs.Policies

/-!
# The stages of a commit

A commit goes through *stages* (`Commit.stages`): the copies of each type are written, the policy is
promoted, the copies of each type are removed. What a stage asks of any contents is told by
`Stage.calls`: its calls, in the order of the plan, or the fault that it is refused with, which
makes no call. The work of a stage does what the stage asks (`Work.Does`), unless a call is made to
fail: `does_write`, `does_policy` and `does_remove`.

Copies are those that a lookup finds (`Memory.copy?`), under ids as they are displayed, so that all
this holds whatever the mappings and the documents are.
-/

namespace Lifecycle

variable {deployment : Deployment} {world : World} {bare : Prop}

/-! ### Copies that are found -/

namespace Content

/-- What the id in a stored body is displayed as, if it has one that counts as given. -/
def shownId? (body : Table Json) : Option String :=
  match entityId? body with
  | .ok id => id.map Json.display
  | .error _ => none

/-- A body that has a value at the path of the id has it in an object under `document`. -/
theorem exists_document_of_at? {body : Table Json} {key : String} {value : Json}
    (h : Query.at? (.object body) ["document", key] = some value) :
    ∃ fields : Table Json, body.get? "document" = some (.object fields) ∧
      fields.get? key = some value := by
  cases hdocument : Table.get? body "document" with
  | none => simp [Query.at?, hdocument] at h
  | some document =>
    cases document with
    | object fields =>
      cases hkey : Table.get? fields key with
      | none => simp [Query.at?, hdocument, hkey] at h
      | some found => exact ⟨fields, rfl, by simpa [Query.at?, hdocument, hkey] using h⟩
    | _ => simp [Query.at?, hdocument] at h

theorem entityId?_of_at? {body : Table Json} {value : Json}
    (h : Query.at? (.object body) ["document", "id"] = some value) :
    entityId? body = .ok value.given? := by
  obtain ⟨fields, hdocument, hid⟩ := exists_document_of_at? h
  rw [entityId?, documentFields_of_object hdocument]
  show Except.ok (Json.under fields "id").given? = _
  rw [Json.under, hid, Option.getD_some]

theorem at?_idView {body : Table Json} {value : Json}
    (h : Query.at? (.object body) ["document", "id"] = some value) :
    Query.at? (.object (idView body)) ["document", "id"] = some value := by
  have hpath : Text.split '.' "document.id" = ["document", "id"] := by decide
  have hview : idView body = [("document", .object [("id", value)])] := by
    simp [idView, Query.partsAt, hpath, Query.withPart, h, Query.place, Table.put]
  rw [hview]
  rfl

end Content

namespace Memory

/-- The documents that a lookup of some ids in a space goes through. -/
def copies (memory : Memory) (type : EntityType) (ids : List String) (space : Space) :
    Documents :=
  (memory.entities type).filter fun entry =>
    memory.asked (({} : ContentSettings).indexFor type) space ids entry.2

/-- The copy that a lookup of some ids in a space finds for one of them: the first document whose id
is displayed as it. -/
def copy? (memory : Memory) (type : EntityType) (ids : List String) (space : Space)
    (id : String) : Option Query.Entry :=
  (memory.copies type ids space).find? fun entry => Content.shownId? entry.2 == some id

variable {memory : Memory} {type : EntityType} {ids : List String} {space : Space} {id : String}

theorem exists_id_of_mem_copies {entry : Query.Entry} (h : entry ∈ memory.copies type ids space) :
    ∃ value, Query.at? (.object entry.2) ["document", "id"] = some value := by
  obtain ⟨-, hasked⟩ := List.mem_filter.mp h
  simp only [asked, Bool.and_eq_true, Scope.hasIdAmong] at hasked
  cases hid : Query.at? (.object entry.2) ["document", "id"] with
  | none =>
    rw [hid] at hasked
    exact absurd hasked.2.2 (by simp)
  | some value => exact ⟨value, rfl⟩

theorem copy?_mem {entry : Query.Entry} (h : memory.copy? type ids space id = some entry) :
    entry ∈ memory.entities type ∧
      memory.carries (({} : ContentSettings).indexFor type) space entry.2 = true ∧
        Content.shownId? entry.2 = some id := by
  have hshown : (Content.shownId? entry.2 == some id) = true := by simpa using List.find?_some h
  obtain ⟨hmem, hasked⟩ := List.mem_filter.mp (List.mem_of_find?_eq_some h)
  rw [asked, Bool.and_eq_true] at hasked
  exact ⟨hmem, hasked.1, beq_iff_eq.mp hshown⟩

end Memory

namespace Commit

/-- Documents that are added one after another are found under their ids, the first one of each
id. -/
theorem foldlM_addCopy {hits : List Hit}
    (h : ∀ hit ∈ hits, ∃ id, Content.entityId? hit.source = .ok id) (start : Table Hit) :
    ∃ t : Table Hit, hits.foldlM addCopy start = .ok t ∧ ∀ id, t.get? id =
      (start.get? id).or (hits.find? fun hit => Content.shownId? hit.source == some id) := by
  -- `start` is what the earlier documents have left, and takes precedence over the later ones
  induction hits generalizing start with
  | nil => exact ⟨start, rfl, fun id => by simp⟩
  | cons hit rest ih =>
    obtain ⟨id, hid⟩ := h hit List.mem_cons_self
    have hrest := ih fun other hother => h other (List.mem_cons_of_mem _ hother)
    cases id with
    | none =>
      have hshown : Content.shownId? hit.source = none := by rw [Content.shownId?, hid]; rfl
      have hadd : addCopy start hit = .ok start := by rw [addCopy, hid]; rfl
      obtain ⟨t, ht, hget⟩ := hrest start
      refine ⟨t, by rw [List.foldlM_cons, hadd]; exact ht, fun other => ?_⟩
      rw [hget, List.find?_cons_of_neg (by simp [hshown])]
    | some value =>
      have hshown : Content.shownId? hit.source = some value.display := by
        rw [Content.shownId?, hid]
        rfl
      have hadd : addCopy start hit = .ok (if start.has value.display then start
          else start.put value.display hit) := by
        rw [addCopy, hid]
        rfl
      obtain ⟨t, ht, hget⟩ := hrest (if start.has value.display then start
        else start.put value.display hit)
      refine ⟨t, by rw [List.foldlM_cons, hadd]; exact ht, fun other => ?_⟩
      rw [hget, List.find?_cons, hshown]
      by_cases hother : value.display = other
      · subst hother
        -- what is there already stays, and the new document is found if there is nothing
        cases hthere : start.get? value.display with
        | some earlier => simp [Table.has, hthere]
        | none => simp [Table.has, hthere, Table.get?_put]
      · have hbeq : (some value.display == some other) = false := by simpa using hother
        rw [hbeq]
        congr 1
        split
        · rfl
        · rw [Table.get?_put, if_neg hother]

/-- A lookup finds the copies that the contents have. -/
theorem performs_copies_found (h : deployment.Standard) (hworld : world.Probed)
    (type : EntityType) (ids : List String) (space : Space) {source : Json}
    {view : Table Json → Table Json}
    (hview : ∀ body, Query.projected source body = .ok (view body))
    (hid : ∀ body value, Query.at? (.object body) ["document", "id"] = some value →
      Query.at? (.object (view body)) ["document", "id"] = some value) :
    ∃ t : Table Hit, (copies type ids space source).Performs deployment world [] (.ok t) bare ∧
      ∀ id, t.get? id = (world.memory.copy? type ids space id).map (Store.toHit view) := by
  -- whatever else is left out of the bodies, their ids are found as they are stored
  have hshown : ∀ entry ∈ world.memory.copies type ids space,
      Content.entityId? (view entry.2) = Content.entityId? entry.2 := by
    intro entry hentry
    obtain ⟨value, hvalue⟩ := Memory.exists_id_of_mem_copies hentry
    rw [Content.entityId?_of_at? hvalue, Content.entityId?_of_at? (hid _ _ hvalue)]
  have hids : ∀ hit ∈ (world.memory.copies type ids space).map (Store.toHit view),
      ∃ id, Content.entityId? hit.source = .ok id := by
    intro hit hhit
    obtain ⟨entry, hentry, rfl⟩ := List.mem_map.mp hhit
    obtain ⟨value, hvalue⟩ := Memory.exists_id_of_mem_copies hentry
    exact ⟨value.given?, by rw [← Content.entityId?_of_at? hvalue, ← hshown entry hentry]; rfl⟩
  obtain ⟨t, ht, hget⟩ := foldlM_addCopy hids []
  refine ⟨t, by rw [← ht]; exact performs_copies_scan h hworld type ids space hview,
    fun id => ?_⟩
  rw [hget, Table.get?_nil, Option.none_or, List.find?_map, Memory.copy?, ← List.head?_filter,
    ← List.head?_filter]
  congr 2
  apply List.filter_congr
  intro entry hentry
  show (Content.shownId? (view entry.2) == some id) = _
  rw [Content.shownId?, hshown entry hentry]
  rfl

/-! ### What a stage asks -/

/-- A part of a commit that is reported as one: the copies of a type are written, the policy is
promoted, or the copies of a type are removed. -/
inductive Stage where
  | write (type : EntityType)
  | policy
  | remove (type : EntityType)
  deriving DecidableEq, Repr

/-- The name that a fault of the stage is reported under. -/
def Stage.name : Stage → String
  | .write type => type.name
  | .policy => policyStep
  | .remove type => type.name

/-- The stages of a commit in their order. Types that nothing is planned for are passed over. -/
def stages (plan : EntityType → List Change) (withPolicy : Bool) : List Stage :=
  (EntityType.writeOrder.filter fun type => !(Change.writes (plan type)).isEmpty).map .write ++
    ((if withPolicy then [.policy] else []) ++
      (EntityType.writeOrder.reverse.filter fun type =>
        !(Change.removals (plan type)).isEmpty).map .remove)

section

variable (plan : EntityType → List Change) (space target : Space)

/-- The ids of planned copies that have no source. -/
def missing (memory : Memory) (type : EntityType) : List String :=
  (writeIds plan type).filter fun id =>
    !(memory.copy? type (writeIds plan type) space id).isSome

/-- The storage id for a copy: that of the copy that is found, else the one that is made for it. -/
def placeIn (memory : Memory) (type : EntityType) (id : String) : String :=
  match memory.copy? type (writeIds plan type) target id with
  | some entry => entry.1
  | none => renderedId target id

/-- The body for a copy, made from that of its source. -/
def bodyIn (memory : Memory) (type : EntityType) (id : String) : Table Json :=
  successorBody (((memory.copy? type (writeIds plan type) space id).map Prod.snd).getD []) target

/-- The calls of a stage, by the contents that it finds, or the fault that it is refused with. The
policy is saved at a point in time. -/
def Stage.calls (time : Instant) (stage : Stage) (memory : Memory) : Except Fault (List Call) :=
  match stage with
  | .write type =>
    if missing plan space memory type = [] then
      .ok ((writeIds plan type).map fun id =>
        .upsert (({} : ContentSettings).indexFor type) (placeIn plan target memory type id)
          (bodyIn plan space target memory type id))
    else .error (.stale type.name (missing plan space memory type))
  | .policy => do
    match ← Policies.found? memory space with
    | none => .error (.stale policyStep [space.name])
    | some source => do
      let current ← Policies.found? memory target
      pure (policyCalls target source current time)
  | .remove type =>
    .ok ((removalIds plan type).filterMap fun id =>
      ((memory.copy? type (removalIds plan type) target id).map Prod.fst).map fun key =>
        .delete (({} : ContentSettings).indexFor type) key)

end

section

variable {plan : EntityType → List Change} {space target : Space}

/-- The calls of the policy stage, for the policy that is found and the one it replaces. -/
theorem policy_calls_eq_ok_iff {time : Instant} {memory : Memory} {calls : List Call} :
    Stage.policy.calls plan space target time memory = .ok calls ↔
      ∃ source current, Policies.found? memory space = .ok (some source) ∧
        Policies.found? memory target = .ok current ∧
          calls = policyCalls target source current time := by
  simp only [Stage.calls]
  rcases Policies.found? memory space with fault | source | source
  · simp [bind, Except.bind]
  · simp [bind, Except.bind]
  · rcases Policies.found? memory target with fault | current
    · simp [bind, Except.bind]
    · simp [bind, Except.bind, pure, Except.pure, eq_comm]

end

/-- The index that a stage is about. -/
def Stage.index : Stage → String
  | .write type => ({} : ContentSettings).indexFor type
  | .policy => ".cti-policies"
  | .remove type => ({} : ContentSettings).indexFor type

/-- The kind of calls that a stage makes. -/
def Stage.method : Stage → Method
  | .write _ => .upsert
  | .policy => .upsert
  | .remove _ => .delete

section

variable {plan : EntityType → List Change} {space target : Space} {time : Instant}
  {memory : Memory} {stage : Stage} {calls : List Call} {call : Call}

/-- The calls of a stage are of one kind and about one index. -/
theorem method_of_mem_calls (h : stage.calls plan space target time memory = .ok calls)
    (hcall : call ∈ calls) : call.method = stage.method ∧ call.index = stage.index := by
  cases stage with
  | write type =>
    rw [Stage.calls] at h
    split at h
    · cases h
      obtain ⟨id, -, rfl⟩ := List.mem_map.mp hcall
      exact ⟨rfl, rfl⟩
    · cases h
  | policy =>
    obtain ⟨source, current, -, -, rfl⟩ := policy_calls_eq_ok_iff.mp h
    rw [policyCalls] at hcall
    split at hcall
    · cases hcall
    · rw [List.mem_singleton.mp hcall]
      exact ⟨rfl, rfl⟩
  | remove type =>
    cases h
    obtain ⟨id, -, hkey⟩ := List.mem_filterMap.mp hcall
    obtain ⟨key, -, rfl⟩ := Option.map_eq_some_iff.mp hkey
    exact ⟨rfl, rfl⟩

end

end Commit

/-! ### What a stage does -/

/-- The work performs the calls that it is asked for, and has a value; or it is refused, and
performs none. -/
def Work.Does {α : Type} (work : Work α) (deployment : Deployment) (world : World) :
    Except Fault (List Call) → Prop
  | .ok calls => ∃ value, work.Performs deployment world calls (.ok value) True
  | .error fault => work.Performs deployment world [] (.error fault) True

namespace Commit

variable (plan : EntityType → List Change) (space target : Space)

/-- Writing the copies of a type does what its stage asks. -/
theorem does_write (h : deployment.Standard) (hworld : world.Probed) (type : EntityType)
    (time : Instant) :
    (write type (Change.writes (plan type)) space target).Does deployment world
      ((Stage.write type).calls plan space target time world.memory) := by
  have hwhole : ∀ body, Query.projected .null body = .ok body := fun _ => rfl
  obtain ⟨sources, hsources, hsource⟩ := performs_copies_found h hworld type
    (writeIds plan type) space hwhole fun _ _ => id
  have hmissing : (writeIds plan type).filter (fun id => !sources.has id) =
      missing plan space world.memory type := by
    apply List.filter_congr
    intro id _
    rw [Table.has, hsource, Option.isSome_map]
  rw [Stage.calls]
  by_cases hnone : missing plan space world.memory type = []
  · rw [if_pos hnone]
    refine ⟨counted (Change.writes (plan type)) [], ?_⟩
    rw [write]
    refine Work.Performs.behind_refl rfl ?_
    refine hsources.read_bind fun later hlater => ?_
    show Work.Performs (do
      if !((writeIds plan type).filter fun id => !sources.has id).isEmpty then throw _
      let existing ← copies type (writeIds plan type) target (Json.texts ["document.id"])
      writeCopies deployment.settings type target sources existing (Change.writes (plan type)) []
        : Work Counts) deployment later _ _ True
    rw [hmissing, hnone]
    -- the copies of the successor are looked up by their ids only, behind those of the space
    obtain ⟨existing, hexisting, hplace⟩ := performs_copies_found h
      (hlater.probed hworld) type (writeIds plan type) target Content.projected_id
      fun _ _ => Content.at?_idView
    rw [hlater.memory_eq] at hplace
    refine hexisting.read_bind fun last _ => ?_
    apply performs_writeCopies_of h
    · intro change _
      rw [bodyIn, sourceOf, hsource, Option.map_map]
      rfl
    · intro change _
      rw [placeIn, storageId, hplace]
      cases world.memory.copy? type (writeIds plan type) target change.id with
      | none => rw [h.documentId, documentId_eq]; rfl
      | some entry => rfl
  · rw [if_neg hnone]
    show Work.Performs _ deployment world [] _ True
    rw [write]
    refine Work.Performs.behind_refl rfl ?_
    refine hsources.read_bind fun later _ => ?_
    show Work.Performs (do
      if !((writeIds plan type).filter fun id => !sources.has id).isEmpty then
        throw (.stale type.name ((writeIds plan type).filter fun id => !sources.has id))
      let existing ← copies type (writeIds plan type) target (Json.texts ["document.id"])
      writeCopies deployment.settings type target sources existing (Change.writes (plan type)) []
        : Work Counts) deployment later _ _ True
    rw [hmissing]
    cases hlist : missing plan space world.memory type with
    | nil => exact absurd hlist hnone
    | cons id rest => exact (Work.performs_throw _).bind_error

/-- Promoting the policy does what its stage asks, at some point in time. -/
theorem does_policy (h : deployment.Standard) (hworld : world.Probed) :
    ∃ time, (promotePolicy space target).Does deployment world
      (Stage.policy.calls plan space target time world.memory) := by
  have hget : (Policies.get? space).Performs deployment world [] _ True :=
    Policies.performs_found h hworld space
  simp only [Stage.calls]
  cases hsource : Policies.found? world.memory space with
  | error fault =>
    rw [hsource] at hget
    exact ⟨0, hget.bind_error⟩
  | ok found =>
    rw [hsource] at hget
    cases found with
    | none => exact ⟨0, hget.read_bind fun _ _ => Work.performs_throw _⟩
    | some source =>
      cases hcurrent : Policies.found? world.memory target with
      | error fault =>
        refine ⟨0, hget.read_bind fun later hlater => ?_⟩
        have hget' : (Policies.get? target).Performs deployment later [] _ True :=
          Policies.performs_found h (hlater.probed hworld) target
        rw [hlater.memory_eq, hcurrent] at hget'
        exact hget'.bind_error
      | ok current =>
        obtain ⟨time, hpromote⟩ :=
          performs_promotePolicy_found h hworld hsource hcurrent
        exact ⟨time, _, hpromote⟩

/-- Removing the copies of a type does what its stage asks. -/
theorem does_remove (h : deployment.Standard) (hworld : world.Probed) (type : EntityType)
    (time : Instant) :
    (remove type (Change.removals (plan type)) target).Does deployment world
      ((Stage.remove type).calls plan space target time world.memory) := by
  obtain ⟨existing, hexisting, hplace⟩ := performs_copies_found h hworld type
    (removalIds plan type) target Content.projected_id fun _ _ => Content.at?_idView
  set key := fun id => (world.memory.copy? type (removalIds plan type) target id).map Prod.fst
    with hkey
  refine ⟨0 + (removalIds plan type).countP fun id => (key id).isSome, ?_⟩
  rw [remove]
  refine Work.Performs.behind_refl rfl ?_
  refine hexisting.read_bind fun later _ => ?_
  rw [h.indexFor type]
  apply performs_removeCopies_of h
  intro id _
  rw [hplace, Option.map_map]
  rfl

end Commit

end Lifecycle
