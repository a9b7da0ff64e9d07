import Lifecycle.Proofs.Paging

/-!
# Runs with pages of another size

Two deployments that differ only in the size of their pages, and work on them side by side. The
worlds of both are *twins* when they differ only in the reads that are logged (`World.Twins`), and
work is *parallel* when it has the same outcome on twins and leaves twins behind (`Work.Parallel`).
Scans are parallel, for what they end with does not depend on the pages (`Store.parallel_scan`), and
nothing else asks for the size of the pages. So there is one rule for each way that work is put
together, and one for each operation of the store and of the network.
-/

namespace Lifecycle

variable {α β : Type} {deployment : Deployment} {size : Int}

/-! ### Deployments and worlds -/

/-- A deployment with pages of another size. -/
def Deployment.paged (deployment : Deployment) (size : Int) : Deployment :=
  { deployment with settings := { deployment.settings with pageSize := size } }

@[simp] theorem Deployment.indexFor_paged (deployment : Deployment) (size : Int)
    (type : EntityType) :
    (deployment.paged size).settings.indexFor type = deployment.settings.indexFor type := by
  cases type <;> rfl

/-- A deployment with its content in memory, and a size of pages that it can have instead of its
own. -/
structure Deployment.Resizes (deployment : Deployment) (size : Int) : Prop where
  backend : deployment.backend = .memory
  pageSize : 0 < deployment.settings.pageSize
  size : 0 < size

theorem Deployment.Resizes.backend_paged (h : deployment.Resizes size) :
    (deployment.paged size).backend = .memory :=
  h.backend

/-- Worlds where no search is made to fail, and that differ at most in the reads that are logged. -/
structure World.Twins (world other : World) : Prop where
  passes : world.SearchesPass
  memory : other.memory = world.memory
  rules : other.rules = world.rules
  replies : other.replies = world.replies
  spaceFields : other.spaceFields = world.spaceFields
  clock : other.clock = world.clock
  exchanges : other.exchanges = world.exchanges
  written : other.written = world.written

theorem World.Twins.refl {world : World} (h : world.SearchesPass) : world.Twins world :=
  ⟨h, rfl, rfl, rfl, rfl, rfl, rfl, rfl⟩

theorem World.Twins.passes_other {world other : World} (h : world.Twins other) :
    other.SearchesPass := by
  rw [SearchesPass, h.rules]
  exact h.passes

/-- A call leaves the rules about what they are about. -/
theorem FailureRule.exists_method_of_mem_applyAll {call : Call} {rules : List FailureRule}
    {rule : FailureRule} (h : rule ∈ (applyAll call rules).1) :
    ∃ earlier ∈ rules, earlier.method = rule.method := by
  induction rules with
  | nil => cases h
  | cons first rest ih =>
    rw [applyAll] at h
    split at h
    · rcases List.mem_cons.mp h with rfl | hrest
      · exact ⟨first, List.mem_cons_self, rfl⟩
      · exact ⟨rule, List.mem_cons_of_mem _ hrest, rfl⟩
    · rcases List.mem_cons.mp h with rfl | hrest
      · refine ⟨first, List.mem_cons_self, ?_⟩
        split <;> rfl
      · obtain ⟨earlier, hearlier, hmethod⟩ := ih hrest
        exact ⟨earlier, List.mem_cons_of_mem _ hearlier, hmethod⟩

namespace World

variable {world other : World}

/-- The writes in the log, behind calls that only read. -/
theorem written_logged {calls : List Call} (h : ∀ call ∈ calls, call.method.writes = false) :
    (world.logged deployment calls).written = world.written := by
  have hnone : calls.filter (fun call => call.method.writes) = [] :=
    List.filter_eq_nil_iff.mpr fun call hcall => by rw [h call hcall]; exact Bool.false_ne_true
  unfold written logged
  cases deployment.traced with
  | false => rfl
  | true => rw [if_pos rfl, List.filter_append, hnone, List.append_nil]

/-- Twins stay twins when each of them logs reads of its own. -/
theorem Twins.logged (h : world.Twins other) (twin : Deployment) {calls more : List Call}
    (hcalls : ∀ call ∈ calls, call.method.writes = false)
    (hmore : ∀ call ∈ more, call.method.writes = false) :
    (world.logged deployment calls).Twins (other.logged twin more) :=
  { h with written := by rw [written_logged hcalls, written_logged hmore, h.written] }

/-- Twins stay twins when the same call is made on both. -/
theorem Twins.called (h : world.Twins other) (size : Int) (call : Call) :
    (world.called deployment call).Twins (other.called (deployment.paged size) call) where
  passes rule hrule := by
    obtain ⟨earlier, hmem, hmethod⟩ := FailureRule.exists_method_of_mem_applyAll hrule
    exact hmethod ▸ h.passes earlier hmem
  memory := h.memory
  rules := by
    show (FailureRule.applyAll call other.rules).1 = (FailureRule.applyAll call world.rules).1
    rw [h.rules]
  replies := h.replies
  spaceFields := h.spaceFields
  clock := h.clock
  exchanges := h.exchanges
  written := by
    have htraced : (deployment.paged size).traced = deployment.traced := rfl
    have hwritten := h.written
    unfold World.written at hwritten
    unfold World.written World.called
    rw [htraced]
    dsimp only
    split
    · rw [List.filter_append, List.filter_append, hwritten]
    · exact hwritten

end World

/-! ### Work side by side -/

namespace Work

/-- Work has the same outcome on twins as other work has with pages of another size, and leaves
twins behind. -/
def Parallel (deployment : Deployment) (size : Int) (work twin : Work α) : Prop :=
  ∀ world other : World, world.Twins other →
    (twin.runOn (deployment.paged size) other).1 = (work.runOn deployment world).1 ∧
      (work.runOn deployment world).2.Twins (twin.runOn (deployment.paged size) other).2

theorem parallel_pure (value : α) :
    Parallel deployment size (pure value : Work α) (pure value) :=
  fun _ _ h => ⟨rfl, h⟩

theorem parallel_throw (fault : Fault) :
    Parallel deployment size (throw fault : Work α) (throw fault) :=
  fun _ _ h => ⟨rfl, h⟩

theorem parallel_ofExcept (result : Except Fault α) :
    Parallel deployment size (ofExcept result) (ofExcept result) := by
  intro world other h
  rw [runOn_ofExcept, runOn_ofExcept]
  exact ⟨rfl, h⟩

theorem Parallel.bind {work twin : Work α} {next following : α → Work β}
    (h : Parallel deployment size work twin)
    (hnext : ∀ value, Parallel deployment size (next value) (following value)) :
    Parallel deployment size (work >>= next) (twin >>= following) := by
  intro world other hworld
  obtain ⟨houtcome, hlater⟩ := h world other hworld
  rw [runOn_bind, runOn_bind]
  rcases hrun : work.runOn deployment world with ⟨result, later⟩
  rcases htwin : twin.runOn (deployment.paged size) other with ⟨result', last⟩
  rw [hrun, htwin] at houtcome hlater
  cases houtcome
  cases result with
  | error fault => exact ⟨rfl, hlater⟩
  | ok value => exact hnext value later last hlater

theorem parallel_settings_bind {next following : ContentSettings → Work α}
    (h : Parallel deployment size (next deployment.settings)
      (following (deployment.paged size).settings)) :
    Parallel deployment size (settings >>= next) (settings >>= following) := by
  intro world other hworld
  rw [runOn_settings_bind, runOn_settings_bind]
  exact h world other hworld

theorem parallel_read_bind {next following : Deployment → Work α}
    (h : Parallel deployment size (next deployment) (following (deployment.paged size))) :
    Parallel deployment size (read >>= next) (read >>= following) := by
  intro world other hworld
  rw [runOn_bind, runOn_read, runOn_bind, runOn_read]
  exact h world other hworld

theorem Parallel.step {work twin : Work α} (h : Parallel deployment size work twin)
    (name : String) :
    Parallel deployment size (Commit.step name work) (Commit.step name twin) := by
  intro world other hworld
  obtain ⟨houtcome, hlater⟩ := h world other hworld
  rw [Commit.runOn_step, Commit.runOn_step]
  exact ⟨congrArg (Except.mapError (Commit.named name)) houtcome, hlater⟩

/-- The clocks of twins show the same time. -/
theorem parallel_now : Parallel deployment size now now := by
  intro world other h
  refine ⟨congrArg Except.ok h.clock, ?_⟩
  exact { h with clock := congrArg (· + 1) h.clock }

/-- The network gives twins the same reply. -/
theorem parallel_exchange (request : Exchange) :
    Parallel deployment size (exchange request) (exchange request) := by
  intro world other h
  rw [runOn_exchange, runOn_exchange, h.replies]
  exact ⟨rfl, { h with
    replies := congrArg (fun replies => (Reply.next replies).2) h.replies
    exchanges := congrArg (· ++ [request]) h.exchanges }⟩

end Work

/-! ### The store -/

namespace Store

open Work

section

variable (h : deployment.Resizes size)

include h

theorem parallel_search (index : String) (asked : Search) :
    Parallel deployment size (search index asked) (search index asked) := by
  intro world other hworld
  have hread : ∀ call ∈ [Call.search index asked], call.method.writes = false := by
    intro call hcall
    rw [List.mem_singleton.mp hcall]
    rfl
  have htwin : (search index asked).runOn (deployment.paged size) other =
      (other.memory.search index asked,
        other.logged (deployment.paged size) [.search index asked]) :=
    runOn_search_passed h.backend_paged hworld.passes_other index asked
  rw [runOn_search_passed h.backend hworld.passes, htwin, hworld.memory]
  exact ⟨rfl, hworld.logged (deployment.paged size) hread hread⟩

/-- Scans end alike, whatever the size of their pages is. -/
theorem parallel_scan (index : String) (query source : Json) (start : β)
    (step : β → Hit → Except Fault β) :
    Parallel deployment size
      (scan index { query, source, pageSize := deployment.settings.pageSize } start step)
      (scan index { query, source, pageSize := (deployment.paged size).settings.pageSize } start
        step) := by
  intro world other hworld
  have hreads : ∀ made : List Search, ∀ call ∈ made.map (Call.search index),
      call.method.writes = false := by
    intro made call hcall
    obtain ⟨asked, -, rfl⟩ := List.mem_map.mp hcall
    rfl
  set scanned : Scan := { query, source, pageSize := deployment.settings.pageSize } with hscanned
  set twin : Scan := { query, source, pageSize := (deployment.paged size).settings.pageSize }
    with htwin
  cases hfound : world.memory.found index query with
  | error fault =>
    have hfound' : other.memory.found index query = .error fault := by rw [hworld.memory, hfound]
    rw [runOn_scan_unsupported h.backend step start hworld.passes
        (show world.memory.found index scanned.query = _ from hfound),
      runOn_scan_unsupported h.backend_paged step start hworld.passes_other
        (show other.memory.found index twin.query = _ from hfound')]
    exact ⟨rfl, hworld.logged (deployment.paged size) (hreads [_]) (hreads [_])⟩
  | ok entries =>
    have hfound' : other.memory.found index query = .ok entries := by rw [hworld.memory, hfound]
    obtain ⟨made, -, -, hrun, -⟩ := runOn_scan h.backend
      (show 0 < scanned.pageSize from h.pageSize) step start hworld.passes hfound
    obtain ⟨more, -, -, hrun', -⟩ := runOn_scan h.backend_paged
      (show 0 < twin.pageSize from h.size) step start hworld.passes_other hfound'
    rw [hrun, hrun']
    exact ⟨rfl, hworld.logged (deployment.paged size) (hreads made) (hreads more)⟩

omit h in
/-- The same write is made on both sides, or on none. -/
theorem parallel_write (call : Call) :
    Parallel deployment size
      (do
        Work.call call
        modify fun world => { world with memory := world.memory.apply call })
      (do
        Work.call call
        modify fun world => { world with memory := world.memory.apply call }) := by
  intro world other hworld
  have hcalled : (world.called deployment call).Twins
      (other.called (deployment.paged size) call) := hworld.called size call
  rw [runOn_bind, runOn_call, runOn_bind, runOn_call, hworld.rules]
  cases (FailureRule.applyAll call world.rules).2 with
  | some fault => exact ⟨rfl, hcalled⟩
  | none =>
    refine ⟨rfl, { hcalled with memory := ?_ }⟩
    exact congrArg (Memory.apply · call) hworld.memory

theorem parallel_upsert (index id : String) (body : Table Json) :
    Parallel deployment size (upsert index id body) (upsert index id body) := by
  rw [upsert]
  refine parallel_read_bind ?_
  rw [h.backend, h.backend_paged]
  exact parallel_write (.upsert index id body)

theorem parallel_delete (index id : String) :
    Parallel deployment size (delete index id) (delete index id) := by
  rw [delete]
  refine parallel_read_bind ?_
  rw [h.backend, h.backend_paged]
  exact parallel_write (.delete index id)

end

end Store

/-! ### Space fields -/

namespace Resolver

open Work

section

variable (h : deployment.Resizes size)

include h

/-- What is probed on both sides is the same, and is kept on both. -/
theorem parallel_probe (index : String) :
    Parallel deployment size (probe index) (probe index) := by
  intro world other hworld
  have hprobed : probed (deployment.paged size) other index = probed deployment world index := by
    unfold probed
    rw [hworld.rules, hworld.memory]
    rfl
  have htwin : (probe index).runOn (deployment.paged size) other =
      (.ok (ofOutcome deployment.settings.spaceFieldCandidates
        (probed (deployment.paged size) other index)),
        probedWorld (deployment.paged size) other index) :=
    runOn_probe_memory h.backend_paged index
  rw [runOn_probe_memory h.backend, htwin, hprobed]
  refine ⟨rfl, { hworld.called size (.fieldCapabilities index
    deployment.settings.spaceFieldCandidates) with spaceFields := ?_ }⟩
  show other.spaceFields.put index (ofOutcome deployment.settings.spaceFieldCandidates
      (probed (deployment.paged size) other index)) =
    world.spaceFields.put index (ofOutcome deployment.settings.spaceFieldCandidates
      (probed deployment world index))
  rw [hprobed, hworld.spaceFields]

theorem parallel_resolve (index : String) :
    Parallel deployment size (resolve index) (resolve index) := by
  have hcached : Parallel deployment size (cached? index) (cached? index) := fun world other h =>
    ⟨congrArg (fun kept => Except.ok (Table.get? kept index)) h.spaceFields, h⟩
  rw [resolve]
  refine hcached.bind fun kept => ?_
  cases kept with
  | some fields => exact parallel_pure fields
  | none => exact parallel_probe h index

theorem parallel_within (index : String) (space : Space) (query : Json) :
    Parallel deployment size (within index space query) (within index space query) := by
  have hname : space.name ≠ "" := by cases space <;> decide
  rw [within, scopedQuery]
  · exact (parallel_resolve h index).bind fun fields => parallel_ofExcept _
  · exact hname

end

end Resolver

end Lifecycle
