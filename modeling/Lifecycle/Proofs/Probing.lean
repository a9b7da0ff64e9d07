import Lifecycle.Proofs.Capabilities
import Lifecycle.Proofs.Scoping

/-!
# What a probe of an index finds

An index in memory tells for each field that its mapping has what can be done with it. Of the
candidates that are probed those are marked that can be searched by their value
(`SpaceFields.usable?_capabilities`), so that the space fields of an index are these, or all
candidates if there are none (`SpaceFields.search_ofAnswer`). A probe that fails leaves all
candidates too (`Resolver.faithful_ofOutcome`).
-/

namespace Lifecycle

variable {mapping : Mapping} {candidates : List String}

namespace Memory

/-- What a mapping tells about some fields. -/
def capabilities (mapping : Mapping) (fields : List String) : Table Json :=
  Table.ofEntries (fields.filterMap fun field =>
    (mapping.get? field).map fun type => (field, capability type))

/-- A mapping tells about a field what can be done with its type. -/
theorem get?_capabilities {field : String} (hfield : field ∈ candidates) :
    (capabilities mapping candidates).get? field = (mapping.get? field).map capability := by
  rw [← Table.get?_ofEntries_filterMap (fun field => (mapping.get? field).map capability) hfield]
  simp only [capabilities, Option.map_map, Function.comp_def]

end Memory

namespace SpaceFields

variable (mapping) in
/-- A field is marked as one to search if it can be searched by its value. -/
theorem usable?_capabilities {field : String} (hfield : field ∈ candidates) :
    ∃ aggregatable, usable? (Memory.capabilities mapping candidates) field =
      some (Query.searchable mapping field, aggregatable) := by
  rw [usable?, concrete?, Json.under, Memory.get?_capabilities hfield, Query.searchable]
  cases mapping.get? field with
  | none => exact ⟨false, rfl⟩
  | some type =>
    by_cases hobject : type = "object"
    · subst hobject
      exact ⟨false, rfl⟩
    by_cases hnested : type = "nested"
    · subst hnested
      exact ⟨false, rfl⟩
    -- a type with values of its own has one description, and that marks it
    have hconcrete : type ∉ compositeTypes := by
      simp [compositeTypes, hobject, hnested]
    have hsearchable : (type != "object" && type != "nested") = true := by
      simp [hobject, hnested]
    simp only [Option.map_some, Option.getD_some, Memory.capability, hsearchable]
    refine ⟨type == "keyword", ?_⟩
    cases type == "keyword" <;>
      simp [tableOf?, Json.truthy, Json.fields?, hconcrete, someMarked?, Json.under, Table.get?]

variable (mapping candidates) in
/-- The fields to search that a mapping tells are those that can be searched, or all if there are
none. -/
theorem search_ofAnswer :
    (ofAnswer candidates (.object (Memory.capabilities mapping candidates))).search =
      passingOrAll candidates (Query.searchable mapping) := by
  have huses : ∀ field ∈ candidates, usable? (Memory.capabilities mapping candidates) field =
      some (Query.searchable mapping field,
        ((usable? (Memory.capabilities mapping candidates) field).getD (false, false)).2) := by
    intro field hfield
    obtain ⟨aggregatable, husable⟩ := usable?_capabilities mapping hfield
    rw [husable]
    rfl
  rw [ofAnswer_of_uses huses]

end SpaceFields

/-- The fields that scope a query under a mapping, if the index has one: the candidates that a probe
marks, or all candidates where the probe failed or marked none. -/
def Scope.Faithful (candidates : List String) (mapping : Option Mapping) (fields : List String) :
    Prop :=
  fields = candidates ∨
    fields ≠ [] ∧ ∃ found, mapping = some found ∧
      fields = candidates.filter (Query.searchable found)

namespace Resolver

variable {memory : Memory} {index : String} {outcome : Except Fault Json}

/-- The fields of an index stem from what its mapping tells, or from a probe that failed. -/
theorem faithful_ofOutcome
    (h : outcome = memory.fieldCapabilities index candidates ∨ ∃ fault, outcome = .error fault) :
    Scope.Faithful candidates (memory.mappings.get? index)
      (ofOutcome candidates outcome).search := by
  rcases h with rfl | ⟨fault, rfl⟩
  · rw [Memory.fieldCapabilities]
    cases memory.mappings.get? index with
    | none => exact .inl rfl
    | some mapping =>
      have hsearch := SpaceFields.search_ofAnswer mapping candidates
      show Scope.Faithful candidates (some mapping) (SpaceFields.ofAnswer _
        (.object (Memory.capabilities mapping candidates))).search
      rw [hsearch, SpaceFields.passingOrAll]
      split
      · exact .inl rfl
      · rename_i hsome
        exact .inr ⟨hsome, mapping, rfl, rfl⟩
  · exact .inl rfl

/-- The fields of the default candidates stem from what the mapping tells. -/
theorem probed_ofOutcome
    (h : outcome = memory.fieldCapabilities index ({} : ContentSettings).spaceFieldCandidates ∨
      ∃ fault, outcome = .error fault) :
    Scope.Probed (memory.mappings.get? index)
      (ofOutcome ({} : ContentSettings).spaceFieldCandidates outcome).search :=
  faithful_ofOutcome h

end Resolver

end Lifecycle
