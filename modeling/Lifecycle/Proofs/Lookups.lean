import Lifecycle.Promotion.Commit
import Lifecycle.Proofs.Reading
import Lifecycle.Proofs.Scripts

/-!
# Lookups in a space

What the lookups of a promotion find in any contents, whatever the mappings of the indexes are: a
scan for copies goes through the documents that name the space and have one of the ids
(`Commit.performs_copies_scan`), one for hashes through all documents that name the space
(`Ledger.performs_hashes_scan`), and the policy of a space is the first document of the policies
index that names it (`Policies.performs_found`).
-/

namespace Lifecycle

variable {deployment : Deployment} {world : World} {bare : Prop}

/-! ### Scans -/

/-- A scan for copies goes through the documents that name the space and have one of the ids. -/
theorem Commit.performs_copies_scan (h : deployment.Standard) (hworld : world.Probed)
    (type : EntityType) (ids : List String) (space : Space) {source : Json}
    {view : Table Json → Table Json}
    (hview : ∀ body, Query.projected source body = .ok (view body)) :
    (copies type ids space source).Performs deployment world []
      ((((world.memory.entities type).filter fun entry =>
        world.memory.asked (({} : ContentSettings).indexFor type) space ids entry.2).map
          (Store.toHit view)).foldlM addCopy []) bare :=
  Resolver.performs_scoped_scan h hworld (h.indexFor type) (indexFor_mem type) space
    (Scope.apply_terms space ids) (fun _ hfields => Memory.found_withIds hfields space ids) hview
    [] addCopy

/-- A scan for hashes goes through the documents that name the space. -/
theorem Ledger.performs_hashes_scan (h : deployment.Standard) (hworld : world.Probed)
    (type : EntityType) (space : Space) :
    (hashes type space).Performs deployment world []
      ((((world.memory.entities type).filter fun entry =>
        world.memory.carries (({} : ContentSettings).indexFor type) space entry.2).map
          (Store.toHit Content.documentView)).foldlM addHash []) bare :=
  Resolver.performs_scoped_scan h hworld (h.indexFor type) (indexFor_mem type) space
    (Scope.apply_null space) (fun _ hfields => Memory.found_inSpace hfields space)
    Content.projected_document [] addHash

/-! ### The first document found -/

/-- A search for one document finds the first one that the query finds. -/
theorem Memory.search_first {memory : Memory} {index : String} {query source : Json}
    {entries : List Query.Entry} {view : Table Json → Table Json}
    (hfound : memory.found index query = .ok entries)
    (hview : ∀ body, Query.projected source body = .ok (view body)) :
    memory.search index { query, size := 1, source } =
      .ok ⟨entries.length, (entries.take 1).map (Store.toHit view)⟩ := by
  have hpage : ((entries.map (Store.toHit view)).drop 0).take 1 =
      (entries.take 1).map (Store.toHit view) := List.map_take.symm
  rw [← hpage]
  exact Store.search_ordered hfound rfl hview rfl (by decide : (0 : Int) ≤ 1)

/-- Looking for the first document that a query finds. -/
theorem Store.performs_search_first (h : deployment.Standard) {index : String}
    {query source : Json} {entries : List Query.Entry} {view : Table Json → Table Json}
    (hfound : world.memory.found index query = .ok entries)
    (hview : ∀ body, Query.projected source body = .ok (view body)) :
    (Store.search index { query, size := 1, source }).Performs deployment world []
      (.ok ⟨entries.length, (entries.take 1).map (Store.toHit view)⟩) bare := by
  rw [← Memory.search_first hfound hview]
  exact Store.performs_search h.backend index _

/-! ### Policies -/

namespace Policies

/-- The policy that is read from a document, if there is one. -/
def readFrom (space : Space) (entry : Option Query.Entry) : Except Fault (Option PolicyRecord) :=
  match entry with
  | none => .ok none
  | some entry => (toRecord space ⟨entry.1, entry.2⟩).map some

/-- The policy of a space in some contents: the first document that names the space. -/
def found? (memory : Memory) (space : Space) : Except Fault (Option PolicyRecord) :=
  readFrom space
    (memory.policies.find? fun entry => memory.carries ".cti-policies" space entry.2)

theorem performs_found (h : deployment.Standard) (hworld : world.Probed) (space : Space) :
    (get? space).Performs deployment world [] (found? world.memory space) bare := by
  have hindex : ".cti-policies" ∈ contentIndexes := by decide
  rw [get?, first?]
  refine Resolver.performs_scoped h hworld h.policiesIndex hindex space (Scope.apply_null space)
    fun fields later hfields hmemory => ?_
  rw [← hmemory] at hfields
  rw [h.policiesIndex]
  refine (Store.performs_search_first h (Memory.found_inSpace hfields space)
    fun _ => rfl).read_bind fun last _ => ?_
  rw [hmemory, found?, ← List.head?_filter]
  unfold Memory.policies
  cases (world.memory.documents ".cti-policies").filter fun entry =>
      world.memory.carries ".cti-policies" space entry.2 with
  | nil => exact Work.performs_pure none
  | cons entry rest =>
    show Work.Performs (do
      let record ← Work.ofExcept (toRecord space ⟨entry.1, entry.2⟩)
      pure (some record)) deployment last [] ((toRecord space ⟨entry.1, entry.2⟩).map some) bare
    cases hrecord : toRecord space ⟨entry.1, entry.2⟩ with
    | error fault => exact (Work.performs_ofExcept (.error fault)).bind_error
    | ok record =>
      exact (Work.performs_ofExcept (.ok record)).read_bind fun _ _ => Work.performs_pure _

end Policies

end Lifecycle
