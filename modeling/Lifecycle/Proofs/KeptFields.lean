import Lifecycle.Proofs.ScopedSearches
import Lifecycle.Proofs.TrueHashes

/-!
# What is kept about space fields

What a probe has told about an index is kept, and never asked for again. Searches in a space rely on
it: if it does not stem from a probe, they may pass over the space. That it does is nothing to be
assumed: nothing is kept at the beginning, and whatever is done on whatever deployment, with any
calls and requests failing, keeps only what stems from probes (`Job.stemming_runAll`). So a search
in a space never shows a document that names another space only, whatever has been done before it
(`Job.searchWithin_runAll`).
-/

namespace Lifecycle

variable {deployment : Deployment} {world : World}

/-! ### One step -/

/-- What is kept stems from probes, at every point of what is done. -/
def Contract.stemming (deployment : Deployment) : Contract where
  holds := Resolver.Stemming deployment
  writes _ _ := True

/-- Only a probe has something kept. -/
theorem Contract.stemming_stepwise : (stemming deployment).Stepwise deployment where
  shown _ := trivial
  fails _ := trivial
  call call _ world hworld := by
    rw [Work.runOn_call]
    exact ⟨hworld, ends_any _⟩
  exchange _ _ _ hworld := ⟨hworld, ends_any _⟩
  memory _ _ hworld := hworld
  kept _ index outcome hworld := hworld.put index outcome
  clock _ _ hworld := hworld

theorem Contract.stemming_writes : (stemming deployment).Writes deployment where
  toLawful := stemming_stepwise.lawful
  copy _ _ _ _ := trivial
  policy _ _ _ _ := trivial

/-! ### Runs -/

namespace Job

/-- Whatever is done, what is kept goes on stemming from probes. -/
theorem stemming_runAll (hworld : Resolver.Stemming deployment world)
    (jobs : List (Job × List FailureRule)) :
    Resolver.Stemming deployment (runAll deployment world jobs) := by
  induction jobs generalizing world with
  | nil => exact hworld
  | cons step rest ih =>
    have hunder : Resolver.Stemming deployment (world.under step.2) := hworld
    exact ih (holds_run Contract.stemming_writes (fun _ => trivial) hunder step.1)

/-- Whatever has been done since nothing was kept, every hit of a search in a space shows a document
that the query finds and that has the name of the space in some candidate. -/
theorem searchWithin_runAll (hstart : world.spaceFields = [])
    (hbackend : deployment.backend = .memory)
    (hsome : deployment.settings.spaceFieldCandidates ≠ []) {index name : String}
    (hname : name ≠ "") {asked : Search} (hquery : Query.Given (fun _ _ => True) asked.query)
    (jobs : List (Job × List FailureRule)) {page : Page} {later : World}
    (hrun : (Resolver.searchWithin index name asked).runOn deployment
      (runAll deployment world jobs) = (.ok page, later)) {hit : Hit} (hhit : hit ∈ page.hits) :
    ∃ body, (hit.id, body) ∈ (runAll deployment world jobs).memory.documents index ∧
      Query.projected asked.source body = .ok hit.source ∧
        Query.finds ⟨(runAll deployment world jobs).memory.mapping index, hit.id, body⟩
          asked.query = true ∧
          ∃ field ∈ deployment.settings.spaceFieldCandidates,
            Scope.holdsAt ((runAll deployment world jobs).memory.mapping index) name body field =
              true :=
  Resolver.exists_of_searchWithin hbackend rfl hsome hname
    (stemming_runAll (.of_nil hstart) jobs) hquery hrun hhit

end Job

end Lifecycle
