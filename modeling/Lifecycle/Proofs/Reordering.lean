import Lifecycle.Proofs.Edits
import Lifecycle.Proofs.MergedOrder
import Lifecycle.Proofs.PolicyContent
import Lifecycle.Proofs.Resolution

/-!
# What a reordering stores

A reordering of the integrations of `draft` reads its policy and saves it with the wanted order
merged into the stored list (`Policies.performs_reorder`), in place of the document that it was read
from. So the merge is what is stored under its storage id and what the policy is read with
afterwards, also where several documents of the index belong to `draft`. With the laws of the merge
itself, a reordering neither invents nor omits an integration (`reordering_merges`).
-/

namespace Lifecycle

variable {deployment : Deployment} {world later : World} {record saved : PolicyRecord}
  {wanted : List String} {bare : Prop}

namespace Policies

/-- The policy of `draft` may be edited. -/
theorem performs_editable (h : deployment.Standard) (hworld : world.Standing) {action : Action}
    (hallowed : Space.draft.allows action = true)
    (hrecord : stored? world.memory.policies .draft = .ok (some record)) :
    (editable .draft action).Performs deployment world [] (.ok record) bare := by
  have hget : (get? .draft).Performs deployment world [] (.ok (some record)) bare := by
    rw [← hrecord, ← found?_eq hworld.mapped]
    exact performs_found h hworld.probed .draft
  rw [editable, hallowed]
  exact hget.read_bind fun _ _ => Work.performs_pure record

/-- A reordering saves the policy that is stored, with the merge as its integrations. -/
theorem performs_reorder (h : deployment.Standard) (hworld : world.Standing)
    (hrecord : stored? world.memory.policies .draft = .ok (some record)) (wanted : List String) :
    let merged := { record.document with
      integrations := mergedOrder wanted record.document.integrations }
    ∃ time, (reorder .draft wanted).Performs deployment world
      [saveCall .draft merged (some record) none time]
      (.ok (savedRecord .draft merged (some record) none time)) bare := by
  rw [reorder]
  refine (performs_editable h hworld (by decide) hrecord).read_bind_exists fun later _ => ?_
  exact performs_save h .draft _ (some record) none

/-- What the contents are behind the save of a policy in place of the one that was read: the body
under its storage id, and the policy that is read from it, as the first one of the space. -/
theorem saved_after (hrecord : stored? world.memory.policies .draft = .ok (some record))
    {document : Policy} {time : Instant}
    (hafter : world.After [saveCall .draft document (some record) none time] none later) :
    later.memory.policies.get? record.docId =
        some (savedBody .draft (stamped document time) record.source) ∧
      stored? later.memory.policies .draft = .ok (some
        { savedRecord .draft document (some record) none time with
          document := (stamped document time).reread .draft }) := by
  have hpolicies : later.memory.policies = Table.put world.memory.policies record.docId
      (savedBody .draft (stamped document time) record.source) := by
    rw [hafter.memory]
    exact Memory.documents_put world.memory _ _ _
  rw [hpolicies]
  exact ⟨by rw [Table.get?_put, if_pos rfl], Documents.stored?_put hrecord _⟩

/-- The policy that is stored is the one that a reading yields. -/
theorem yields_get? (h : deployment.Standard) (hworld : world.Standing) (space : Space) :
    (get? space).Yields deployment world (stored? world.memory.policies space) := by
  rw [← found?_eq hworld.mapped]
  exact (performs_found h hworld.probed space).yields

end Policies

/-- A reordering stores the merge of the wanted order with the stored list, and the policy is read
with it afterwards. The merge has each item of the stored list once, those that are wanted first;
merging once more changes nothing, and an order that has all items is taken as it is. -/
theorem reordering_merges (wanted stored : List String) :
    IsMerge wanted stored (mergedOrder wanted stored) ∧
    mergedOrder wanted (mergedOrder wanted stored) = mergedOrder wanted stored ∧
    (wanted.Perm (distinct stored) → mergedOrder wanted stored = wanted) ∧
    ∀ (deployment : Deployment) (world later : World) (record saved : PolicyRecord),
      deployment.Standard → world.Standing →
      Policies.stored? world.memory.policies .draft = .ok (some record) →
      record.document.integrations = stored →
      (Policies.reorder .draft wanted).runOn deployment world = (.ok saved, later) →
        saved.document.integrations = mergedOrder wanted stored ∧
        (∃ body fields, later.memory.policies.get? record.docId = some body ∧
          body.get? "document" = some (.object fields) ∧
          Table.get? fields "integrations" = some (Json.texts (mergedOrder wanted stored))) ∧
        ∃ found, (Policies.get? .draft).Yields deployment later (.ok (some found)) ∧
          found.docId = record.docId ∧
          found.document.integrations = mergedOrder wanted stored := by
  refine ⟨isMerge_mergedOrder wanted stored, mergedOrder_mergedOrder wanted stored,
    mergedOrder_of_perm, ?_⟩
  rintro deployment world later record saved h hworld hrecord rfl hrun
  have hperforms : ∃ time, (Policies.reorder .draft wanted).Performs deployment world _ _ False :=
    Policies.performs_reorder h hworld hrecord wanted
  obtain ⟨time, hperforms⟩ := hperforms
  obtain ⟨hsaved, hafter⟩ := hperforms.of_ok hrun
  obtain ⟨hbody, hstored⟩ := Policies.saved_after hrecord hafter
  have hget := Policies.yields_get? h (hworld.after hafter) .draft
  rw [hstored] at hget
  refine ⟨?_, ⟨_, _, hbody, Policies.get?_document_savedBody _, ?_⟩, _, hget, rfl, rfl⟩
  · rw [← Except.ok.inj hsaved]
    rfl
  · rw [Content.get?_relabelledField_of_ne (by decide)]
    rfl

/-- A store with two policies of `draft`, of which the first one lists an integration twice. -/
def repeatedDraft : World :=
  { memory :=
      { mappings := contentIndexes.map fun index => (index, Memory.defaultMapping)
        indexes := [(".cti-policies", [("p", body ["A", "B", "C", "A"]), ("q", body ["D"])])] } }
where
  body (integrations : List String) : Table Json :=
    [("space", .object [("name", .text "draft")]),
     ("document", .object [("id", .text "z"), ("integrations", Json.texts integrations)])]

theorem repeatedDraft_standing : repeatedDraft.Standing :=
  ⟨by decide +kernel, fun _ _ _ hkept => by cases hkept⟩

/-- An order that names one integration twice, and one that the policy does not have. -/
theorem reordering_merges_repeatedDraft :
    ∃ saved later found, (Policies.reorder .draft ["C", "X", "A", "C"]).runOn {} repeatedDraft =
        (.ok saved, later) ∧
      saved.document.integrations = ["C", "A", "B"] ∧
      ((Policies.get? .draft).runOn {} later).1 = .ok (some found) ∧
      found.document.integrations = ["C", "A", "B"] := by
  have hmerge : mergedOrder ["C", "X", "A", "C"] ["A", "B", "C", "A"] = ["C", "A", "B"] := by
    decide
  obtain ⟨record, hrecord, hstored⟩ : ∃ record,
      Policies.stored? repeatedDraft.memory.policies .draft = .ok (some record) ∧
        record.document.integrations = ["A", "B", "C", "A"] := ⟨_, rfl, rfl⟩
  have hperforms : ∃ time, (Policies.reorder .draft ["C", "X", "A", "C"]).Performs {}
      repeatedDraft _ _ False :=
    Policies.performs_reorder Deployment.standard_default repeatedDraft_standing hrecord _
  obtain ⟨time, hperforms⟩ := hperforms
  obtain ⟨later, hrun, hafter⟩ := hperforms.run_eq rfl
  obtain ⟨-, -, -, hreorders⟩ := reordering_merges ["C", "X", "A", "C"] ["A", "B", "C", "A"]
  obtain ⟨hsaved, -, found, hget, -, hfound⟩ := hreorders {} repeatedDraft later record _
    Deployment.standard_default repeatedDraft_standing hrecord hstored hrun
  rw [hmerge] at hsaved hfound
  exact ⟨_, later, found, hrun, hsaved, hget.eq (hafter.rules rfl), hfound⟩

end Lifecycle
