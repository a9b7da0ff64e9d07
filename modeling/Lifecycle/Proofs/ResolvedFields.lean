import Lifecycle.Proofs.KeptFields
import Lifecycle.Proofs.StorageIds

/-!
# Every index has space fields

Resolving the space fields of an index never ends in a fault, whatever a probe of it ends with, on
any deployment and whatever was done before (`Job.resolve_runAll`): not by a fault of the store, nor
by an answer of a wrong shape, nor by one that marks nothing. There are always fields to search and
fields to aggregate, and each of the two lists is chosen of the candidates by its own mark
(`Resolver.Chosen`). A query that is scoped by no field would find the documents of all spaces, so
that settings without candidates are not read either (`ContentSettings.candidates_of_read`).
-/

namespace Lifecycle

variable {deployment : Deployment} {world : World} {index : String}

/-! ### Candidates -/

namespace ContentSettings

theorem ne_nil_of_checkCandidates {given candidates : List String}
    (h : checkCandidates given = .good candidates) : candidates ≠ [] := by
  rw [checkCandidates] at h
  split at h
  · cases h
  · rename_i hcleaned
    cases h
    exact hcleaned

/-- Settings that were read have candidates for the fields that name the space. -/
theorem candidates_of_read {env : Settings.Environment} {overrides : Table Json}
    {settings : ContentSettings} (h : read env overrides = .ok settings) :
    settings.spaceFieldCandidates ≠ [] := by
  obtain ⟨fields, hcandidates, -⟩ := checked_of_read h
  rcases Check.optional_eq_good_iff.mp hcandidates with ⟨-, hdefault⟩ | ⟨value, -, hvalue⟩
  · rw [← hdefault]
    decide
  · cases hitems : Check.listOf Check.text value with
    | good items =>
      rw [hitems] at hvalue
      exact ne_nil_of_checkCandidates hvalue
    | bad details =>
      rw [hitems] at hvalue
      cases hvalue

end ContentSettings

/-! ### Resolving -/

namespace Resolver

/-- Space fields are resolved without a fault and kept. They are chosen by what a probe ended with:
by the one that is made where nothing is kept, and else by one that was made before. -/
theorem exists_resolve (hsome : deployment.settings.spaceFieldCandidates ≠ [])
    (hkept : Stemming deployment world) (index : String) :
    ∃ fields later outcome, (resolve index).runOn deployment world = (.ok fields, later) ∧
      later.spaceFields.get? index = some fields ∧
      (world.spaceFields.get? index = none → ((Store.fieldCapabilities index
        deployment.settings.spaceFieldCandidates).runOn deployment world).1 = outcome) ∧
      ∀ use : SpaceFields.Use,
        Chosen deployment.settings.spaceFieldCandidates outcome use.mark (fields.usedFor use) := by
  cases hfound : world.spaceFields.get? index with
  | some fields =>
    obtain ⟨outcome, rfl⟩ := hkept index fields hfound
    exact ⟨_, world, outcome, runOn_resolve_of_kept hfound, hfound, fun hnone => (by cases hnone),
      chosen_ofOutcome hsome outcome⟩
  | none =>
    rcases hasked : (Store.fieldCapabilities index
      deployment.settings.spaceFieldCandidates).runOn deployment world with ⟨outcome, later⟩
    refine ⟨_, _, outcome, (runOn_resolve_of_none hfound).trans (runOn_probe_of hasked), ?_,
      fun _ => rfl, chosen_ofOutcome hsome outcome⟩
    exact (Table.get?_put ..).trans (if_pos rfl)

end Resolver

namespace Job

/-- Space fields can always be resolved. Whatever was done since nothing was kept, with whatever
calls and requests failing, and whatever the store ends with when it is asked about the candidates,
an index has space fields, which are kept: some of the candidates in their order for each use, and
at least one. By a well-formed answer these are the candidates that it reports with the mark of the
use, or all candidates where it reports none of them. -/
theorem resolve_runAll (hsome : deployment.settings.spaceFieldCandidates ≠ [])
    (hstart : world.spaceFields = []) (jobs : List (Job × List FailureRule))
    (rules : List FailureRule) (index : String) :
    ∃ fields later outcome,
      (Resolver.resolve index).runOn deployment ((runAll deployment world jobs).under rules) =
        (.ok fields, later) ∧
      later.spaceFields.get? index = some fields ∧
      ((runAll deployment world jobs).spaceFields.get? index = none →
        ((Store.fieldCapabilities index deployment.settings.spaceFieldCandidates).runOn deployment
          ((runAll deployment world jobs).under rules)).1 = outcome) ∧
      ∀ use : SpaceFields.Use, Resolver.Chosen deployment.settings.spaceFieldCandidates outcome
        use.mark (fields.usedFor use) := by
  -- the rules by which calls fail do not matter to what is kept
  have hkept : Resolver.Stemming deployment ((runAll deployment world jobs).under rules) :=
    stemming_runAll (.of_nil hstart) jobs
  exact Resolver.exists_resolve hsome hkept index

/-- A deployment with three candidates. Its store says of the decoders that the first one holds
other fields, that the second one can be searched and aggregated, and the third one only searched.
-/
def partlyMarked : Deployment where
  settings := { spaceFieldCandidates := ["space", "space.name", "document.space"] }
  capabilities := [(".cti-decoders", answer)]
where
  answer : Json := .object
    [("space", .object [("object", .object [("searchable", .bool true)])]),
     ("space.name", .object
       [("keyword", .object [("searchable", .bool true), ("aggregatable", .bool true)])]),
     ("document.space", .object
       [("nested", .object [("aggregatable", .bool true)]),
        ("text", .object [("searchable", .bool true), ("aggregatable", .bool false)])])]

/-- Behind an edit that finds no policy, the fields of the decoders are those that have a use. -/
theorem resolve_runAll_partlyMarked :
    ∃ fields later,
      (Resolver.resolve ".cti-decoders").runOn partlyMarked
        ((runAll partlyMarked {} [(.command (.reorder .draft ["a"]), [])]).under []) =
          (.ok fields, later) ∧
      "space" ∉ fields.search ∧ "document.space" ∈ fields.search ∧
        "document.space" ∉ fields.aggregate := by
  obtain ⟨fields, later, outcome, hrun, -, houtcome, hchosen⟩ :=
    @resolve_runAll partlyMarked {} (by decide) rfl [(.command (.reorder .draft ["a"]), [])] []
      ".cti-decoders"
  have hanswer : .ok partlyMarked.answer = outcome := houtcome rfl
  have hsearch := (hchosen .search).reported _ hanswer.symm rfl
  have haggregate := (hchosen .aggregate).reported _ hanswer.symm rfl
  refine ⟨fields, later, hrun, ?_, ?_, ?_⟩
  · exact (hsearch "space" (by decide)).not.mpr (by decide)
  · exact (hsearch "document.space" (by decide)).mpr (by decide)
  · exact (haggregate "document.space" (by decide)).not.mpr (by decide)

end Job

end Lifecycle
