import Lifecycle.Promotion.Commit
import Lifecycle.Proofs.Change
import Lifecycle.Proofs.Checks
import Lifecycle.Proofs.Runs

/-!
# Confirming a preview

A preview shows changes in normal form, and its `promote` object is read back as the request for
just these changes. A commit brings the changes of a request into normal form once more. So while
the ledger says the same, the commit plans what the preview showed exactly if none of the ids that
it showed starts with a type tag (`plan_of_preview_iff`): an id is shown with one tag taken away,
and a second tag that it may have is taken away from what was shown.
-/

namespace Lifecycle

variable {deployment : Deployment} {world later : World} {space : Space}

namespace Preview

/-- The changes that are shown are the normal form of an answer of the ledger. -/
theorem changesOf_normalised {changes : ChangeSet}
    (hrun : (changesOf space).runOn deployment world = (.ok changes, later)) :
    ∃ raw : ChangeSet, changes = raw.normalised := by
  rw [changesOf] at hrun
  obtain ⟨target, middle, -, hrun⟩ := Work.runOn_bind_ok hrun
  obtain ⟨raw, read, -, hrun⟩ := Work.runOn_bind_ok hrun
  exact ⟨raw, (Except.ok.inj (Prod.mk.inj hrun).1).symm⟩

/-- A preview is of its space, and its changes are in normal form. -/
theorem ofSpace_normalised {preview : Preview}
    (hrun : (ofSpace space).runOn deployment world = (.ok preview, later)) :
    preview.space = space ∧ ∃ raw : ChangeSet, preview.changes = raw.normalised := by
  rw [ofSpace] at hrun
  obtain ⟨target, middle, -, hrun⟩ := Work.runOn_bind_ok hrun
  obtain ⟨found, read, hfound, hrun⟩ := Work.runOn_bind_ok hrun
  obtain ⟨integrations, first, -, hrun⟩ := Work.runOn_bind_ok hrun
  obtain ⟨decoders, second, -, hrun⟩ := Work.runOn_bind_ok hrun
  obtain ⟨kvdbs, third, -, hrun⟩ := Work.runOn_bind_ok hrun
  obtain ⟨rules, fourth, -, hrun⟩ := Work.runOn_bind_ok hrun
  rw [← Except.ok.inj (Prod.mk.inj hrun).1]
  exact ⟨rfl, changesOf_normalised hfound⟩

end Preview

/-- The plan of a normal form against itself has lost the tags that its ids still had. -/
theorem Commit.plan_normalised_iff (raw : ChangeSet) (type : EntityType) :
    Commit.plan raw.normalised raw.normalised type = raw.normalised.of type ↔
      ∀ change ∈ raw.normalised.of type, Change.stripTag change.id = change.id := by
  rw [Commit.plan, ChangeSet.normalised_of]
  exact Change.reconciled_self_iff (Change.normalised_regular _)

/-- The `promote` object of a preview is a request for the space and the changes that were shown.
While the ledger gives the same answer, the commit of this request plans just these changes of a
type if and only if none of their ids starts with a type tag. -/
theorem plan_of_preview_iff {preview : Preview}
    (hrun : (Preview.ofSpace space).runOn deployment world = (.ok preview, later)) :
    ∃ shown, preview.toJson.get? "promote" = some shown ∧
      PromotionRequest.check .notModel shown = .good ⟨space, preview.changes⟩ ∧
      ∀ type, Commit.plan preview.changes preview.changes type = preview.changes.of type ↔
        ∀ change ∈ preview.changes.of type, Change.stripTag change.id = change.id := by
  obtain ⟨hspace, raw, hchanges⟩ := Preview.ofSpace_normalised hrun
  refine ⟨(PromotionRequest.mk preview.space preview.changes).toJson, rfl, ?_, fun type => ?_⟩
  · rw [PromotionRequest.check_toJson, hspace]
  · rw [hchanges]
    exact Commit.plan_normalised_iff raw type

/-- A deployment whose ledger says that the decoder `x_y` is to be removed, by its tagged id. -/
def taggedRemoval : Deployment :=
  { fixedChanges := some (.object [("decoders", .list
      [.object [("id", .text "d_x_y"), ("operation", .text "remove")]])]) }

/-- The preview shows the decoder by the id `x_y`, and the commit plans something else. -/
theorem plan_of_preview_taggedRemoval :
    ∃ preview later, (Preview.ofSpace .test).runOn taggedRemoval {} = (.ok preview, later) ∧
      preview.changes.of .decoders = [⟨"x_y", .remove⟩] ∧
      Commit.plan preview.changes preview.changes .decoders ≠ preview.changes.of .decoders := by
  have hfound : ((Preview.ofSpace .test).runOn taggedRemoval {}).1.toOption.map
      (fun preview => preview.changes.of .decoders) = some [⟨"x_y", .remove⟩] := by
    decide +kernel
  rcases hrun : (Preview.ofSpace .test).runOn taggedRemoval {} with ⟨fault | preview, later⟩
  · rw [hrun] at hfound
    cases hfound
  · rw [hrun] at hfound
    have hdecoders : preview.changes.of .decoders = [⟨"x_y", .remove⟩] := Option.some.inj hfound
    obtain ⟨shown, -, -, hplan⟩ := plan_of_preview_iff hrun
    refine ⟨preview, later, rfl, hdecoders, fun heq => ?_⟩
    have htag := (hplan .decoders).mp heq ⟨"x_y", .remove⟩ (by rw [hdecoders]; simp)
    exact absurd htag (by decide)

end Lifecycle
