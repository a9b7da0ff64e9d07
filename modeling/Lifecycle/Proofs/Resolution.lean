import Lifecycle.Proofs.Filters
import Lifecycle.Proofs.Reading

/-!
# Space fields of indexes in memory

What the resolver does on any deployment whose content is in memory, whatever its candidates are and
whatever its store says that the indexes can do with them. The space fields of an index are those
that are kept, and else those that a probe finds (`Resolver.fieldsOf`); work behind a scoped query
is work behind the query that these fields give (`Resolver.yields_scoped`).

A probe of any outcome leaves some candidates, and none that is no candidate
(`Resolver.search_ofOutcome_ne_nil`, `Resolver.mem_search_ofOutcome`). When it tells what the
mapping does, or fails, the fields are faithful to the mapping: a name is in one of them if it is in
one of all candidates (`Scope.Faithful.namedIn`).
-/

namespace Lifecycle

variable {α β : Type} {deployment : Deployment} {world : World}

/-! ### What work that only reads yields -/

namespace Work

/-- A run of the work has the outcome, or the fault of a call that is made to fail. -/
def Yields (work : Work α) (deployment : Deployment) (world : World) (outcome : Except Fault α) :
    Prop :=
  (work.runOn deployment world).1 = outcome ∨
    ∃ fault, (work.runOn deployment world).1 = .error fault ∧ world.Raises fault

variable {work : Work α} {outcome : Except Fault α}

theorem Performs.yields {script : List Call}
    (h : work.Performs deployment world script outcome True) :
    work.Yields deployment world outcome := by
  cases h with
  | completed later run after => exact .inl (by rw [run])
  | halted fault done failed later failing run =>
    obtain ⟨cause, hcause, hbare⟩ := failing
    exact .inr ⟨fault, by rw [run], hbare trivial ▸ hcause⟩

/-- Work that has a value has the one that it yields. -/
theorem Yields.of_ok (h : work.Yields deployment world outcome) {value : α}
    (hrun : (work.runOn deployment world).1 = .ok value) : outcome = .ok value := by
  rcases h with h | ⟨fault, hfault, -⟩
  · rw [← h, hrun]
  · rw [hfault] at hrun
    cases hrun

/-- Where no call can be made to fail, the outcome is the one that is yielded. -/
theorem Yields.eq (h : work.Yields deployment world outcome) (hrules : world.rules = []) :
    (work.runOn deployment world).1 = outcome := by
  refine h.resolve_right ?_
  rintro ⟨fault, -, rule, hrule, -⟩
  rw [hrules] at hrule
  cases hrule

end Work

/-! ### The fields that a probe leaves -/

namespace Resolver

variable {candidates : List String}

/-- Whatever a probe ends with, the fields to search are candidates. -/
theorem mem_search_ofOutcome {outcome : Except Fault Json} {field : String}
    (h : field ∈ (ofOutcome candidates outcome).search) : field ∈ candidates :=
  (SpaceFields.usedFor_ofOutcome_sublist candidates outcome .search).subset h

/-- Whatever a probe ends with, there are fields to search. -/
theorem search_ofOutcome_ne_nil (h : candidates ≠ []) (outcome : Except Fault Json) :
    (ofOutcome candidates outcome).search ≠ [] :=
  SpaceFields.usedFor_ofOutcome_ne_nil h outcome .search

end Resolver

namespace Scope

variable {candidates fields : List String} {mapping : Option Mapping}

/-- Fields that are faithful to a mapping have a name where all candidates have it. -/
theorem Faithful.namedIn (h : Faithful candidates mapping fields) (name : String)
    (body : Table Json) :
    namedIn (mapping.getD []) fields name body =
      namedIn (mapping.getD []) candidates name body := by
  rcases h with rfl | ⟨-, found, rfl, rfl⟩
  · rfl
  · rw [Scope.namedIn, List.any_filter, Scope.namedIn]
    simp only [Option.getD_some, ← Bool.and_assoc, Bool.and_self]

end Scope

/-! ### Probes -/

namespace Resolver

variable (deployment world) in
/-- What a probe of an index in memory ends with: the fault of a call that is made to fail, what the
store is made to say, or what the mapping tells. -/
def probed (index : String) : Except Fault Json :=
  let fields := deployment.settings.spaceFieldCandidates
  match (FailureRule.applyAll (.fieldCapabilities index fields) world.rules).2 with
  | some fault => .error fault
  | none =>
    match deployment.capabilities.get? index with
    | some answer => .ok answer
    | none => world.memory.fieldCapabilities index fields

variable (deployment world) in
/-- The space fields of an index: those that are kept, or those that a probe finds. -/
def fieldsOf (index : String) : SpaceFields :=
  (world.spaceFields.get? index).getD
    (ofOutcome deployment.settings.spaceFieldCandidates (probed deployment world index))

variable (deployment world) in
/-- The world after a probe of an index in memory: what it found is kept. -/
def probedWorld (index : String) : World :=
  { world.called deployment
      (.fieldCapabilities index deployment.settings.spaceFieldCandidates) with
    spaceFields := world.spaceFields.put index
      (ofOutcome deployment.settings.spaceFieldCandidates (probed deployment world index)) }

variable (hbackend : deployment.backend = .memory)

include hbackend

theorem runOn_fieldCapabilities_memory (index : String) :
    (Store.fieldCapabilities index deployment.settings.spaceFieldCandidates).runOn deployment
        world =
      (probed deployment world index,
        world.called deployment
          (.fieldCapabilities index deployment.settings.spaceFieldCandidates)) := by
  rw [Store.fieldCapabilities, Work.runOn_bind, Work.runOn_read]
  dsimp only
  rw [hbackend]
  dsimp only
  rw [Work.runOn_bind, Work.runOn_call, probed]
  cases (FailureRule.applyAll (.fieldCapabilities index deployment.settings.spaceFieldCandidates)
      world.rules).2 with
  | some fault => rfl
  | none =>
    dsimp only
    cases deployment.capabilities.get? index with
    | some answer => rfl
    | none =>
      dsimp only
      rw [Work.runOn_bind, Work.runOn_get]
      exact Work.runOn_ofExcept _

/-- A probe keeps what it finds. -/
theorem runOn_probe_memory (index : String) :
    (probe index).runOn deployment world =
      (.ok (ofOutcome deployment.settings.spaceFieldCandidates (probed deployment world index)),
        probedWorld deployment world index) := by
  exact runOn_probe_of (runOn_fieldCapabilities_memory hbackend index)

variable (world) in
/-- The space fields of an index are resolved in front of a later world with the same contents. -/
theorem runOn_resolve_memory (index : String) :
    ∃ later,
      (resolve index).runOn deployment world = (.ok (fieldsOf deployment world index), later) ∧
      later.memory = world.memory ∧ ∀ fault, later.Raises fault → world.Raises fault := by
  cases hkept : world.spaceFields.get? index with
  | some fields =>
    refine ⟨world, ?_, rfl, fun _ => id⟩
    rw [runOn_resolve_of_kept hkept, fieldsOf, hkept]
    rfl
  | none =>
    refine ⟨probedWorld deployment world index, ?_, rfl, fun _ =>
      World.raises_of_called deployment
        (.fieldCapabilities index deployment.settings.spaceFieldCandidates)⟩
    rw [runOn_resolve_of_none hkept, runOn_probe_memory hbackend, fieldsOf, hkept]
    rfl

/-- Work behind a scoped query is work behind the query that the space fields give, on the same
contents. -/
theorem yields_scoped {index name : String} (hname : name ≠ "") {query narrow : Json}
    (happly : Scope.apply query (some name) (fieldsOf deployment world index).search = .ok narrow)
    {next : Json → Work β} {outcome : Except Fault β}
    (hnext : ∀ later, later.memory = world.memory → (next narrow).Yields deployment later outcome) :
    (scopedQuery index (some name) query >>= next).Yields deployment world outcome := by
  obtain ⟨later, hrun, hmemory, hraises⟩ := runOn_resolve_memory world hbackend index
  have hscoped : (scopedQuery index (some name) query).runOn deployment world =
      (.ok narrow, later) := by
    rw [scopedQuery]
    · rw [Work.runOn_bind, hrun]
      dsimp only
      rw [happly, Work.runOn_ofExcept]
    · exact hname
  rw [Work.Yields, Work.runOn_bind, hscoped]
  refine (hnext later hmemory).imp_right ?_
  rintro ⟨fault, hfault, hlater⟩
  exact ⟨fault, hfault, hraises fault hlater⟩

end Resolver

end Lifecycle
