import Lifecycle.Proofs.Scoping
import Lifecycle.Space.Resolver

/-!
# Runs of work on a store in memory

What a run does to the store is told by its *script*, the writes it makes in order: the contents
after a run are the contents before it with the writes replayed (`Memory.replay`). A store call may
be made to fail, and a run then ends in a fault somewhere in its script. So work *performs* a script
with an outcome (`Work.Performs`) when every run of it either makes all the writes and has the
outcome, or is halted by a failing call after some of the writes, with the fault of the call or with
a name for it. With no failing calls there is only the first (`Performs.run_eq`).

Scripts of work in sequence stand behind each other (`Performs.bind`). Work that only reads performs
the empty script.
-/

namespace Lifecycle

/-! ### Replaying writes -/

namespace Memory

def apply (memory : Memory) : Call → Memory
  | .upsert index id body => memory.put index id body
  | .delete index id => memory.delete index id
  | .search .. | .byIds .. | .fieldCapabilities .. => memory

def replay (memory : Memory) (calls : List Call) : Memory := calls.foldl apply memory

@[simp] theorem replay_nil (memory : Memory) : memory.replay [] = memory := rfl

@[simp] theorem replay_cons (memory : Memory) (call : Call) (calls : List Call) :
    memory.replay (call :: calls) = (memory.apply call).replay calls := rfl

@[simp] theorem replay_append (memory : Memory) (calls more : List Call) :
    memory.replay (calls ++ more) = (memory.replay calls).replay more :=
  List.foldl_append

end Memory

/-! ### Deployments and worlds -/

/-- A deployment with its content in memory and the default settings, but for the page size, which
is any that can be set, and the ledger. -/
structure Deployment.Standard (deployment : Deployment) : Prop where
  backend : deployment.backend = .memory
  capabilities : deployment.capabilities = []
  settings : deployment.settings =
    { pageSize := deployment.settings.pageSize, changeLedger := deployment.settings.changeLedger }
  pageSize : 0 < deployment.settings.pageSize

theorem Deployment.standard_default : Deployment.Standard {} := ⟨rfl, rfl, rfl, by decide⟩

def contentIndexes : List String :=
  [".cti-integrations", ".cti-decoders", ".cti-kvdbs", ".cti-rules", ".cti-policies"]

def Memory.Mapped (memory : Memory) : Prop :=
  ∀ index ∈ contentIndexes, memory.mappings.get? index = some Memory.defaultMapping

instance (memory : Memory) : Decidable memory.Mapped :=
  inferInstanceAs (Decidable (∀ index ∈ contentIndexes,
    memory.mappings.get? index = some Memory.defaultMapping))

namespace Deployment.Standard

variable {deployment : Deployment} (h : deployment.Standard)

include h

theorem candidates :
    deployment.settings.spaceFieldCandidates = ({} : ContentSettings).spaceFieldCandidates := by
  rw [h.settings]

theorem indexFor (type : EntityType) :
    deployment.settings.indexFor type = ({} : ContentSettings).indexFor type := by
  rw [h.settings]
  cases type <;> rfl

theorem policiesIndex : deployment.settings.policiesIndex = ".cti-policies" := by
  rw [h.settings]

theorem documentId (space id : String) :
    deployment.settings.documentId space id = ({} : ContentSettings).documentId space id := by
  rw [h.settings]
  rfl

end Deployment.Standard

theorem indexFor_mem (type : EntityType) :
    ({} : ContentSettings).indexFor type ∈ contentIndexes := by
  cases type <;> decide

namespace Memory

/-- A write leaves the mappings of the indexes that have one. -/
theorem get?_mappings_apply {memory : Memory} {index : String} {mapping : Mapping}
    (h : memory.mappings.get? index = some mapping) (call : Call) :
    (memory.apply call).mappings.get? index = some mapping := by
  cases call with
  | upsert other id body =>
    rw [Memory.apply, put, ensureIndex]
    by_cases hother : memory.mappings.has other
    · rwa [if_pos hother]
    · rw [if_neg hother]
      have hne : other ≠ index := by
        rintro rfl
        simp [Table.has, h] at hother
      simp only [createIndex]
      rw [Table.get?_put, if_neg hne]
      exact h
  | delete other id =>
    rw [Memory.apply, delete]
    split <;> exact h
  | search _ _ => exact h
  | byIds _ _ => exact h
  | fieldCapabilities _ _ => exact h

theorem Mapped.apply {memory : Memory} (h : memory.Mapped) (call : Call) :
    (memory.apply call).Mapped :=
  fun index hindex => get?_mappings_apply (h index hindex) call

theorem Mapped.replay {memory : Memory} (h : memory.Mapped) (calls : List Call) :
    (memory.replay calls).Mapped := by
  induction calls generalizing memory with
  | nil => exact h
  | cons call rest ih => exact ih (h.apply call)

theorem Mapped.mapping {memory : Memory} (h : memory.Mapped) {index : String}
    (hindex : index ∈ contentIndexes) : memory.mapping index = defaultMapping := by
  rw [Memory.mapping, h index hindex, Option.getD_some]

end Memory

namespace World

def written (world : World) : List Call := world.calls.filter fun call => call.method.writes

/-- What is kept about the space fields of the indexes stems from probes of the default mapping. -/
def Resolved (world : World) : Prop :=
  ∀ index ∈ contentIndexes, ∀ fields, world.spaceFields.get? index = some fields →
    Scope.Named fields.search

/-- What is kept about the space fields of the indexes stems from probes of their mappings, or from
probes that failed. -/
def Probed (world : World) : Prop :=
  ∀ index ∈ contentIndexes, ∀ fields, world.spaceFields.get? index = some fields →
    Scope.Probed (world.memory.mappings.get? index) fields.search

/-- What was probed of an index that is made by a write counted as no answer, and still does. -/
theorem Probed.after_write {world later : World} (h : world.Probed) {call : Call}
    (hkept : later.spaceFields = world.spaceFields)
    (hmemory : later.memory = world.memory.apply call) : later.Probed := by
  intro index hindex fields hfields
  have hprobed := h index hindex fields (hkept ▸ hfields)
  rw [hmemory]
  cases hmapping : world.memory.mappings.get? index with
  | none =>
    rw [hmapping] at hprobed
    exact hprobed.of_none _
  | some mapping =>
    rw [hmapping] at hprobed
    rwa [Memory.get?_mappings_apply hmapping call]

/-- Whether a call can be made to end with a fault. -/
def Raises (world : World) (fault : Fault) : Prop := ∃ rule ∈ world.rules, rule.fault = fault

/-- The world after some writes, and perhaps a last one that failed. -/
structure After (world : World) (done : List Call) (failed : Option Call) (later : World) :
    Prop where
  memory : later.memory = world.memory.replay done
  written : later.written = world.written ++ done ++ failed.toList
  probed : world.Probed → later.Probed
  raises : ∀ fault, later.Raises fault → world.Raises fault

theorem After.refl (world : World) : world.After [] none world :=
  ⟨rfl, by simp, id, fun _ => id⟩

theorem After.trans {world middle later : World} {done more : List Call} {failed : Option Call}
    (h : world.After done none middle) (h' : middle.After more failed later) :
    world.After (done ++ more) failed later where
  memory := by rw [h'.memory, h.memory, Memory.replay_append]
  written := by rw [h'.written, h.written]; simp
  probed := h'.probed ∘ h.probed
  raises fault := h.raises fault ∘ h'.raises fault

theorem After.memory_eq {world later : World} {failed : Option Call}
    (h : world.After [] failed later) : later.memory = world.memory :=
  h.memory

/-- Where no call can be made to fail, none can be made to fail later. -/
theorem After.rules {world later : World} {done : List Call} {failed : Option Call}
    (h : world.After done failed later) (hrules : world.rules = []) : later.rules = [] := by
  rw [List.eq_nil_iff_forall_not_mem]
  intro rule hrule
  obtain ⟨earlier, hearlier, -⟩ := h.raises rule.fault ⟨rule, hrule, rfl⟩
  rw [hrules] at hearlier
  cases hearlier

/-- Under the default mapping, fields that stem from probes name the space. -/
theorem probed_iff_resolved {world : World} (h : world.memory.Mapped) :
    world.Probed ↔ world.Resolved := by
  refine forall₂_congr fun index hindex => forall₂_congr fun fields _ => ?_
  rw [h index hindex, Scope.probed_default_iff]

/-- A world that work on content can start from: the indexes have the default mapping, and what is
kept about their space fields stems from it. -/
structure Standing (world : World) : Prop where
  mapped : world.memory.Mapped
  resolved : world.Resolved

theorem Standing.probed {world : World} (h : world.Standing) : world.Probed :=
  (probed_iff_resolved h.mapped).mpr h.resolved

theorem Standing.after {world later : World} {done : List Call} {failed : Option Call}
    (h : world.Standing) (hafter : world.After done failed later) : later.Standing := by
  have hmapped : later.memory.Mapped := by
    rw [hafter.memory]
    exact h.mapped.replay done
  exact ⟨hmapped, (probed_iff_resolved hmapped).mp (hafter.probed h.probed)⟩

/-- The world behind an exchange, whatever the reply is. -/
def exchanged (world : World) (request : Exchange) : World :=
  { world with
    replies := (Reply.next world.replies).2
    exchanges := world.exchanges ++ [request] }

end World

namespace Work

variable {α β : Type} {deployment : Deployment} {world : World}

/-! ### Equations of runs -/

theorem runOn_bind (work : Work α) (next : α → Work β) :
    (work >>= next).runOn deployment world =
      match work.runOn deployment world with
      | (.ok value, later) => (next value).runOn deployment later
      | (.error fault, later) => (.error fault, later) := by
  show (do let r ← work deployment; next r deployment : ExceptT Fault (StateM World) β) world = _
  simp only [runOn, bind, ExceptT.bind, ExceptT.mk, StateT.bind]
  rcases work deployment world with ⟨_ | _, _⟩ <;> rfl

theorem runOn_tryCatch (work : Work α) (handle : Fault → Work α) :
    (tryCatch work handle).runOn deployment world =
      match work.runOn deployment world with
      | (.ok value, later) => (.ok value, later)
      | (.error fault, later) => (handle fault).runOn deployment later := by
  show (tryCatch (work deployment) fun fault => handle fault deployment :
    ExceptT Fault (StateM World) α) world = _
  simp only [runOn, tryCatch, tryCatchThe, MonadExceptOf.tryCatch, ExceptT.tryCatch, ExceptT.mk,
    bind, StateT.bind]
  rcases work deployment world with ⟨_ | _, _⟩ <;> rfl

theorem runOn_ofExcept (result : Except Fault α) :
    (ofExcept result).runOn deployment world = (result, world) := by
  cases result <;> rfl

theorem runOn_attempt (work : Work α) :
    (attempt work).runOn deployment world =
      (.ok (work.runOn deployment world).1, (work.runOn deployment world).2) := by
  rw [attempt, runOn_tryCatch, runOn_bind]
  rcases work.runOn deployment world with ⟨_ | _, _⟩ <;> rfl

theorem runOn_get : (get : Work World).runOn deployment world = (.ok world, world) := rfl

theorem runOn_read : (read : Work Deployment).runOn deployment world = (.ok deployment, world) :=
  rfl

theorem runOn_exchange (request : Exchange) :
    (exchange request).runOn deployment world =
      (.ok (Reply.next world.replies).1, world.exchanged request) := rfl

/-- What is made of the reply to a request is told by the reply. -/
theorem runOn_exchange_bind (request : Exchange) (outcome : Reply → Except Fault α) :
    (exchange request >>= fun reply => ofExcept (outcome reply)).runOn deployment world =
      (outcome (Reply.next world.replies).1, world.exchanged request) := by
  rw [runOn_bind, runOn_exchange]
  exact runOn_ofExcept _

theorem runOn_settings_bind (next : ContentSettings → Work α) (world : World) :
    (settings >>= next).runOn deployment world =
      (next deployment.settings).runOn deployment world := by
  rw [runOn_bind]
  rfl

theorem runOn_set (later : World) :
    (set later : Work Unit).runOn deployment world = (.ok (), later) := rfl

/-! ### Performing a script -/

/-- Every run of the work makes the writes of the script and has the outcome, or is halted by a call
that is made to fail. `bare` says that the fault of such a call comes out as it is, and not under
the name of a step. -/
inductive Performs (work : Work α) (deployment : Deployment) (world : World) (script : List Call)
    (outcome : Except Fault α) (bare : Prop := False) : Prop where
  | completed (later : World) (run : work.runOn deployment world = (outcome, later))
      (after : world.After script none later)
  | halted (fault : Fault) (done : List Call) (failed : Option Call) (later : World)
      (failing : ∃ cause, world.Raises cause ∧ (bare → cause = fault))
      (run : work.runOn deployment world = (.error fault, later))
      (within : done ++ failed.toList <+: script) (after : world.After done failed later)

variable {bare : Prop}

/-- Without failing calls the script is completed. -/
theorem Performs.run_eq {work : Work α} {script : List Call} {outcome : Except Fault α}
    (h : work.Performs deployment world script outcome bare) (hrules : world.rules = []) :
    ∃ later, work.runOn deployment world = (outcome, later) ∧ world.After script none later := by
  cases h with
  | completed later run after => exact ⟨later, run, after⟩
  | halted fault done failed later failing =>
    obtain ⟨cause, ⟨rule, hrule, -⟩, -⟩ := failing
    rw [hrules] at hrule
    cases hrule

/-- A run that has a value has completed the script. -/
theorem Performs.of_ok {work : Work α} {script : List Call} {outcome : Except Fault α} {value : α}
    {later : World} (h : work.Performs deployment world script outcome bare)
    (hrun : work.runOn deployment world = (.ok value, later)) :
    outcome = .ok value ∧ world.After script none later := by
  cases h with
  | completed other run after =>
    rw [run] at hrun
    obtain ⟨rfl, rfl⟩ := Prod.mk.inj hrun
    exact ⟨rfl, after⟩
  | halted fault done failed other failing run =>
    rw [run] at hrun
    cases (Prod.mk.inj hrun).1

/-- Work that only reads leaves the contents, whatever its outcome. -/
theorem Performs.run_of_read {work : Work α} {outcome : Except Fault α}
    (h : work.Performs deployment world [] outcome bare) :
    ∃ result later, work.runOn deployment world = (result, later) ∧
      (result = outcome ∨ ∃ fault, result = .error fault) ∧ world.After [] none later := by
  cases h with
  | completed later run after => exact ⟨outcome, later, run, .inl rfl, after⟩
  | halted fault done failed later failing run within after =>
    obtain ⟨rfl, hfailed⟩ := List.append_eq_nil_iff.mp (List.prefix_nil.mp within)
    rw [Option.toList_eq_nil_iff] at hfailed
    subst hfailed
    exact ⟨.error fault, later, run, .inr ⟨fault, rfl⟩, after⟩

theorem performs_pure (value : α) :
    (pure value : Work α).Performs deployment world [] (.ok value) bare :=
  .completed world rfl (.refl world)

theorem performs_throw (fault : Fault) :
    (throw fault : Work α).Performs deployment world [] (.error fault) bare :=
  .completed world rfl (.refl world)

theorem performs_ofExcept (result : Except Fault α) :
    (ofExcept result).Performs deployment world [] result bare :=
  .completed world (runOn_ofExcept result) (.refl world)

theorem performs_get : (get : Work World).Performs deployment world [] (.ok world) bare :=
  .completed world rfl (.refl world)

theorem performs_read :
    (read : Work Deployment).Performs deployment world [] (.ok deployment) bare :=
  .completed world rfl (.refl world)

theorem performs_settings :
    settings.Performs deployment world [] (.ok deployment.settings) bare :=
  .completed world rfl (.refl world)

/-- Work behind a completed run performs its script behind the first one. -/
theorem Performs.behind {work : Work α} {next : α → Work β} {value : α} {script more : List Call}
    {outcome : Except Fault β} {later : World}
    (run : work.runOn deployment world = (.ok value, later))
    (after : world.After script none later)
    (h : (next value).Performs deployment later more outcome bare) :
    (work >>= next).Performs deployment world (script ++ more) outcome bare := by
  have hrun : (work >>= next).runOn deployment world = (next value).runOn deployment later := by
    rw [runOn_bind, run]
  cases h with
  | completed last run' after' =>
    exact .completed last (hrun.trans run') (after.trans after')
  | halted fault done failed last failing run' within after' =>
    obtain ⟨cause, hcause, hbare⟩ := failing
    refine .halted fault (script ++ done) failed last ⟨cause, after.raises cause hcause, hbare⟩
      (hrun.trans run') ?_ (after.trans after')
    rw [List.append_assoc]
    exact (List.prefix_append_right_inj script).mpr within

/-- Work behind a run that leaves the world as it is performs its script. -/
theorem Performs.behind_refl {work : Work α} {next : α → Work β} {value : α} {script : List Call}
    {outcome : Except Fault β} (run : work.runOn deployment world = (.ok value, world))
    (h : (next value).Performs deployment world script outcome bare) :
    (work >>= next).Performs deployment world script outcome bare :=
  .behind run (.refl world) h

/-- Work in sequence whose second part performs one of several scripts, by what it finds. -/
theorem Performs.bind_exists {ι : Type} [Inhabited ι] {work : Work α} {next : α → Work β}
    {value : α} {script : List Call} {more : ι → List Call} {outcome : ι → Except Fault β}
    (h : work.Performs deployment world script (.ok value) bare)
    (hnext : ∀ later, world.After script none later →
      ∃ i, (next value).Performs deployment later (more i) (outcome i) bare) :
    ∃ i, (work >>= next).Performs deployment world (script ++ more i) (outcome i) bare := by
  cases h with
  | completed later run after =>
    obtain ⟨i, hi⟩ := hnext later after
    exact ⟨i, .behind run after hi⟩
  | halted fault done failed later failing run within after =>
    have hrun : (work >>= next).runOn deployment world = (.error fault, later) := by
      rw [runOn_bind, run]
    exact ⟨default, .halted fault done failed later failing hrun
      (within.trans (List.prefix_append ..)) after⟩

/-- Work in sequence performs one script behind the other. -/
theorem Performs.bind {work : Work α} {next : α → Work β} {value : α} {script more : List Call}
    {outcome : Except Fault β} (h : work.Performs deployment world script (.ok value) bare)
    (hnext : ∀ later, world.After script none later →
      (next value).Performs deployment later more outcome bare) :
    (work >>= next).Performs deployment world (script ++ more) outcome bare := by
  have hexists : ∃ _ : Unit,
      (work >>= next).Performs deployment world (script ++ more) outcome bare :=
    h.bind_exists fun later hlater => ⟨(), hnext later hlater⟩
  obtain ⟨-, hperforms⟩ := hexists
  exact hperforms

/-- Work in sequence that has a value has one in each of its parts. -/
theorem runOn_bind_ok {work : Work α} {next : α → Work β} {value : β} {later : World}
    (hrun : (work >>= next).runOn deployment world = (.ok value, later)) :
    ∃ found middle, work.runOn deployment world = (.ok found, middle) ∧
      (next found).runOn deployment middle = (.ok value, later) := by
  rw [runOn_bind] at hrun
  rcases hwork : work.runOn deployment world with ⟨outcome, middle⟩
  rw [hwork] at hrun
  cases outcome with
  | error fault => cases (Prod.mk.inj hrun).1
  | ok found => exact ⟨found, middle, rfl, hrun⟩

theorem Performs.bind_error {work : Work α} {next : α → Work β} {fault : Fault}
    {script : List Call} (h : work.Performs deployment world script (.error fault) bare) :
    (work >>= next).Performs deployment world script (.error fault) bare := by
  cases h with
  | completed later run after =>
    exact .completed later (by rw [runOn_bind, run]) after
  | halted fault' done failed later failing run within after =>
    exact .halted fault' done failed later failing (by rw [runOn_bind, run]) within after

/-- Work that only reads, in front of other work. -/
theorem Performs.read_bind {work : Work α} {next : α → Work β} {value : α} {script : List Call}
    {outcome : Except Fault β} (h : work.Performs deployment world [] (.ok value) bare)
    (hnext : ∀ later, world.After [] none later →
      (next value).Performs deployment later script outcome bare) :
    (work >>= next).Performs deployment world script outcome bare :=
  h.bind hnext

/-- Work that only reads, in front of work that performs one of several scripts. -/
theorem Performs.read_bind_exists {ι : Type} [Inhabited ι] {work : Work α} {next : α → Work β}
    {value : α} {script : ι → List Call} {outcome : ι → Except Fault β}
    (h : work.Performs deployment world [] (.ok value) bare)
    (hnext : ∀ later, world.After [] none later →
      ∃ i, (next value).Performs deployment later (script i) (outcome i) bare) :
    ∃ i, (work >>= next).Performs deployment world (script i) (outcome i) bare :=
  h.bind_exists hnext

/-- Handling faults leaves work as it is whose outcome is a value. -/
theorem Performs.tryCatch_throw {work : Work α} {value : α} {script : List Call}
    {handle : Fault → Work α} (h : work.Performs deployment world script (.ok value) bare)
    (hhandle : ∀ fault, ∃ renamed, handle fault = throw renamed) :
    (tryCatch work handle).Performs deployment world script (.ok value) := by
  cases h with
  | completed later run after =>
    exact .completed later (by rw [runOn_tryCatch, run]) after
  | halted fault done failed later failing run within after =>
    obtain ⟨renamed, hrenamed⟩ := hhandle fault
    obtain ⟨cause, hcause, -⟩ := failing
    refine .halted renamed done failed later ⟨cause, hcause, False.elim⟩ ?_ within after
    rw [runOn_tryCatch, run]
    exact congrArg (runOn · deployment later) hrenamed

end Work

end Lifecycle
