import Lifecycle.Proofs.Shape

/-!
# Runs of commands

Commands are carried out one after another, each with its own failing calls (`Command.runAll`): as
requests, or by the services that answer them. Whatever a command is, and however it ends, it
leaves the contents as they are, or it is a promotion, or it has saved an edited policy
(`Command.Outcome`). So what promotions and edits keep, every run keeps (`Command.keeps_runAll`),
and the shape of the store is kept by all of them (`Command.shaped_runAll`).
-/

namespace Lifecycle

variable {deployment : Deployment} {world : World}

/-- What the lifecycle can be asked to do: all that there are requests for, and what changes the
contents, by the service that does it. -/
inductive Command where
  | request (request : Service.Request)
  | promote (space : Space) (changes : ChangeSet)
  | update (space : Space) (given : PolicyUpdate)
  | reorder (space : Space) (wanted : List String)
  | assign (space : Space) (decoder : String)
  deriving DecidableEq, Repr

namespace Command

/-! ### One command -/

/-- The world after a command, however it ends. -/
def run (deployment : Deployment) (world : World) : Command → World
  | .request asked => ((Service.handle asked).runOn deployment world).2
  | .promote space changes => ((Commit.promote space changes).runOn deployment world).2
  | .update space given => ((Policies.update space given).runOn deployment world).2
  | .reorder space wanted => ((Policies.reorder space wanted).runOn deployment world).2
  | .assign space decoder => ((Gate.assign space decoder).runOn deployment world).2

/-- What a command can leave. -/
inductive Outcome (deployment : Deployment) (world later : World) : Prop where
  | unchanged (failed : Option Call) (after : world.After [] failed later)
  | promoted (space : Space) (changes : ChangeSet)
      (run : ((Commit.promote space changes).runOn deployment world).2 = later)
  | edited (call : Call) (asked : Policies.IsEdit world.memory call)
      (after : world.After [call] none later)

theorem Outcome.of_saves {α : Type} {work : Work α}
    (h : work.Saves deployment world (Policies.IsEdit world.memory)) :
    Outcome deployment world (work.runOn deployment world).2 := by
  cases h with
  | saved value later call run asked after =>
    rw [run]
    exact .edited call asked after
  | left fault later failed run after =>
    rw [run]
    exact .unchanged failed after

/-- A checked request leaves what the work leaves that answers it, or nothing is done about it. -/
theorem Outcome.of_answering {α : Type} (place : String) (checked : Checked α)
    {work : α → Work Json}
    (h : ∀ value, Outcome deployment world ((work value).runOn deployment world).2) :
    Outcome deployment world
      ((Service.answering place checked work).runOn deployment world).2 := by
  rcases Service.runOn_answering place checked work with ⟨value, -, hrun⟩ | ⟨details, hrun⟩
  · rw [hrun]
    exact h value
  · rw [hrun]
    exact .unchanged none (.refl world)

theorem outcome_request (h : deployment.Standard) (hworld : world.Standing)
    (request : Service.Request) :
    Outcome deployment world ((Service.handle request).runOn deployment world).2 := by
  cases hroute : Service.routeOf? request with
  | none =>
    rcases Service.handle_of_no_route hroute with hnone | hnone
    · rw [hnone]
      exact .unchanged none (.refl world)
    · rw [hnone]
      exact .unchanged none (.refl world)
  | some route =>
    rw [Service.handle_of_route hroute]
    -- what is not asked for with this method is one of four routes that write
    by_cases hget : route.method = "GET"
    · exact .unchanged none (Service.reads_answer h request hget world)
    · cases route with
      | promote =>
        refine .of_answering "body" _ fun promotion => ?_
        refine .promoted promotion.space promotion.changes ?_
        rw [Endpoint.promote, Work.runOn_bind]
        rcases (Commit.promote promotion.space promotion.changes).runOn deployment world with
          ⟨fault | report, later⟩ <;> rfl
      | updatePolicy name =>
        exact .of_answering _ _ fun update =>
          .of_saves (Endpoint.saves_updatePolicy h hworld.probed name update)
      | reorder name =>
        exact .of_answering _ _ fun wanted =>
          .of_saves (Endpoint.saves_reorder h hworld.probed name wanted)
      | setRootDecoder name =>
        exact .of_answering _ _ fun update =>
          .of_saves (Endpoint.saves_setRootDecoder h hworld.probed name update)
      | _ => exact absurd rfl hget

theorem outcome_run (h : deployment.Standard) (hworld : world.Standing) (command : Command) :
    Outcome deployment world (command.run deployment world) := by
  cases command with
  | request request => exact outcome_request h hworld request
  | promote space changes => exact .promoted space changes rfl
  | update space given => exact .of_saves (Policies.saves_update h hworld.probed space given)
  | reorder space wanted => exact .of_saves (Policies.saves_reorder h hworld.probed space wanted)
  | assign space decoder => exact .of_saves (Gate.saves_assign h hworld.probed space decoder)

/-! ### Runs -/

/-- The world after commands in a row, each of them with the rules by which calls fail while it
is carried out. -/
def runAll (deployment : Deployment) (world : World)
    (commands : List (Command × List FailureRule)) : World :=
  commands.foldl (fun world step => step.1.run deployment (world.under step.2)) world

section

variable {Keeps : Memory → Prop} (h : deployment.Standard)
  (hschedule : ∀ memory plan space target time stages calls, memory.Mapped → Keeps memory →
    calls <+: Commit.schedule (Commit.Stage.calls plan space target time) stages memory →
      Keeps (memory.replay calls))
  (hedit : ∀ memory call, memory.Mapped → Keeps memory → Policies.IsEdit memory call →
    Keeps (memory.apply call))

include h hschedule hedit

/-- What every beginning of a commit keeps, and every edit of a policy, each command keeps. -/
theorem keeps_run (hworld : world.Standing) (hkeeps : Keeps world.memory) (command : Command) :
    (command.run deployment world).Standing ∧
      Keeps (command.run deployment world).memory := by
  cases outcome_run h hworld command with
  | unchanged failed after =>
    refine ⟨hworld.after after, ?_⟩
    rw [after.memory]
    exact hkeeps
  | promoted space changes run =>
    obtain ⟨done, failed, hafter, plan, target, time, stages, hdone⟩ :=
      Commit.exists_schedule_of_promote h hworld.probed space changes
    rw [run] at hafter
    refine ⟨hworld.after hafter, ?_⟩
    rw [hafter.memory]
    exact hschedule _ plan space target time stages done hworld.mapped hkeeps hdone
  | edited call asked after =>
    refine ⟨hworld.after after, ?_⟩
    rw [after.memory]
    exact hedit _ call hworld.mapped hkeeps asked

theorem keeps_runAll (hworld : world.Standing) (hkeeps : Keeps world.memory)
    (commands : List (Command × List FailureRule)) :
    Keeps (runAll deployment world commands).memory := by
  induction commands generalizing world with
  | nil => exact hkeeps
  | cons step rest ih =>
    have hunder := hworld.under step.2
    obtain ⟨hstanding, hlater⟩ := keeps_run h hschedule hedit hunder hkeeps step.1
    exact ih hstanding hlater

end

/-! ### The shape of the store -/

/-- Commands of any kind and number, whatever comes of each of them, keep the shape of the
store. -/
theorem shaped_runAll (h : deployment.Standard) (hworld : world.Standing)
    (hshaped : world.memory.Shaped) (commands : List (Command × List FailureRule)) :
    (runAll deployment world commands).memory.Shaped := by
  refine keeps_runAll h ?_ ?_ hworld hshaped commands
  · intro memory plan space target time stages calls hmapped hmemory hcalls
    exact Commit.shaped_of_prefix_schedule hmemory hmapped hcalls
  · rintro memory call hmapped hmemory ⟨record, document, time, hfound, rfl⟩
    exact hmemory.save hmapped hfound nofun document time

theorem linkedDraft_shaped : linkedDraft.memory.Shaped := by
  have hwell := linkedDraft_wellFormed
  have hdocuments : ∀ index ∈ contentIndexes, ∀ entry ∈ linkedDraft.memory.documents index,
      ((entry.2.get? "document").bind Json.fields?).isSome = true := by
    decide
  refine Memory.shaped_of (fun index hindex entry hentry => ?_) hwell.entities_orderly
    hwell.policies_orderly
  refine ⟨hwell.named index hindex entry hentry, ?_⟩
  obtain ⟨document, hdocument⟩ :=
    Option.isSome_iff_exists.mp (hdocuments index hindex entry hentry)
  obtain ⟨value, hvalue, hfields⟩ := Option.bind_eq_some_iff.mp hdocument
  cases value with
  | object fields => exact ⟨fields, hvalue⟩
  | _ => cases hfields

/-- All that `linkedDraft` has is promoted, at first with its second write failing, and the policy
of `draft` is edited. -/
def brokenPromotion : List (Command × List FailureRule) :=
  let changes : ChangeSet :=
    { policy := [⟨"z", .add⟩], decoders := [⟨"x", .add⟩], integrations := [⟨"y", .add⟩] }
  [(.promote .draft changes, [⟨.upsert, none, 1, 1, .store "down" none⟩]),
   (.promote .draft changes, []), (.reorder .draft ["y"], [])]

/-- The decoder that was copied before the failure is not copied again. -/
theorem shaped_brokenPromotion :
    (runAll {} linkedDraft brokenPromotion).memory.Shaped ∧
      ((runAll {} linkedDraft (brokenPromotion.take 1)).memory.entities .decoders).length = 2 ∧
      ((runAll {} linkedDraft brokenPromotion).memory.entities .decoders).length = 2 ∧
      (runAll {} linkedDraft brokenPromotion).memory.policies.length = 2 := by
  refine ⟨shaped_runAll Deployment.standard_default linkedDraft_standing linkedDraft_shaped _, ?_⟩
  decide +kernel

end Command

end Lifecycle
