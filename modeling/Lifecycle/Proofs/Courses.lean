import Lifecycle.Proofs.Reads
import Lifecycle.Proofs.Stages

/-!
# How far a commit comes

A commit goes through its stages one after another, and ends with all of them done, at a stage that
is refused, or at a call that fails (`Commit.Course`). So what it writes is a beginning of one
schedule, the calls of all stages in a row (`Course.issued`), and where it ends in a fault the
stages before the one in progress are done, and those behind it are not begun (`Course.stopped`).

Each stage goes its course because its work does what the stage asks (`follows_step`), and stages in
a row do (`Follows.bind`); by induction on the types a whole pass does, and so a commit
(`follows_execute`).
-/

namespace Lifecycle

variable {deployment : Deployment} {world : World} {space target : Space}

namespace Commit

/-! ### Courses -/

/-- The fault that a step ends in: that of a stale change stays, any other is one of the step. -/
def named (name : String) : Fault → Fault
  | .stale type ids => .stale type ids
  | fault => .step name fault

section

variable (asks : Stage → Memory → Except Fault (List Call))

/-- The calls of stages in a row, up to the first that is refused. -/
def schedule : List Stage → Memory → List Call
  | [], _ => []
  | stage :: rest, memory =>
    match asks stage memory with
    | .ok calls => calls ++ schedule rest (memory.replay calls)
    | .error _ => []

/-- Whether no stage of some in a row is refused. -/
def Accepted : List Stage → Memory → Prop
  | [], _ => True
  | stage :: rest, memory =>
    ∃ calls, asks stage memory = .ok calls ∧ Accepted rest (memory.replay calls)

/-- How stages can be gone through in some contents, by what each of them asks and which faults a
call can be made to end with: the calls that were made, the one that failed, and the outcome. -/
inductive Course (raises : Fault → Prop) :
    List Stage → Memory → List Call → Option Call → Except Fault Unit → Prop
  | finished (memory : Memory) : Course raises [] memory [] none (.ok ())
  | onward {stage : Stage} {rest : List Stage} {memory : Memory} {calls done : List Call}
      {failed : Option Call} {outcome : Except Fault Unit}
      (accepted : asks stage memory = .ok calls)
      (behind : Course raises rest (memory.replay calls) done failed outcome) :
      Course raises (stage :: rest) memory (calls ++ done) failed outcome
  | refused {stage : Stage} {rest : List Stage} {memory : Memory} {fault : Fault}
      (refusal : asks stage memory = .error fault) :
      Course raises (stage :: rest) memory [] none (.error (named stage.name fault))
  | broken {stage : Stage} {rest : List Stage} {memory : Memory} {done : List Call}
      {failed : Option Call} {fault : Fault} (raised : raises fault)
      (within : done ++ failed.toList <+: schedule asks [stage] memory) :
      Course raises (stage :: rest) memory done failed (.error (named stage.name fault))

end

variable {asks : Stage → Memory → Except Fault (List Call)} {raises : Fault → Prop}
  {stages rest : List Stage} {memory : Memory} {done : List Call} {failed : Option Call}
  {outcome : Except Fault Unit}

theorem schedule_cons {stage : Stage} {calls : List Call} (h : asks stage memory = .ok calls) :
    schedule asks (stage :: rest) memory =
      calls ++ schedule asks rest (memory.replay calls) := by
  rw [schedule, h]

/-- A call of a schedule is asked for by one of the stages, by the contents that those before it
have left. -/
theorem exists_stage_of_schedule {stages : List Stage} {earlier rest : List Call} {call : Call}
    (h : schedule asks stages memory = earlier ++ call :: rest) :
    ∃ before stage within more,
      asks stage (memory.replay (schedule asks before memory)) = .ok (within ++ call :: more) ∧
        stage ∈ stages ∧ earlier = schedule asks before memory ++ within := by
  induction stages generalizing memory earlier with
  | nil => simp [schedule] at h
  | cons stage stages ih =>
    cases hasks : asks stage memory with
    | error fault => simp [schedule, hasks] at h
    | ok calls =>
      rw [schedule_cons hasks] at h
      -- the call stands among those of the first stage, or behind them
      have hbehind : ∀ {past}, schedule asks stages (memory.replay calls) = past ++ call :: rest →
          earlier = calls ++ past → ∃ before other within more,
            asks other (memory.replay (schedule asks before memory)) =
                .ok (within ++ call :: more) ∧
              other ∈ stage :: stages ∧ earlier = schedule asks before memory ++ within := by
        rintro past hpast rfl
        obtain ⟨before, other, within, more, hcalls, hmem, rfl⟩ := ih hpast
        refine ⟨stage :: before, other, within, more, ?_, List.mem_cons_of_mem _ hmem, ?_⟩
        · rw [schedule_cons hasks, Memory.replay_append]
          exact hcalls
        · rw [schedule_cons hasks, List.append_assoc]
      rcases List.append_eq_append_iff.mp h with ⟨past, rfl, hpast⟩ | ⟨left, rfl, hleft⟩
      · exact hbehind hpast rfl
      · cases left with
        | nil =>
          have hnext : schedule asks stages (memory.replay (earlier ++ [])) =
              [] ++ call :: rest := hleft.symm
          exact hbehind hnext (by simp)
        | cons first more =>
          obtain ⟨rfl, -⟩ := List.cons.inj hleft
          exact ⟨[], stage, earlier, more, hasks, List.mem_cons_self, rfl⟩

/-- A call of a schedule is one of a stage. -/
theorem exists_of_mem_schedule {call : Call} (h : call ∈ schedule asks stages memory) :
    ∃ stage ∈ stages, ∃ found calls, asks stage found = .ok calls ∧ call ∈ calls := by
  obtain ⟨earlier, rest, hschedule⟩ := List.append_of_mem h
  obtain ⟨before, stage, within, more, hcalls, hstage, -⟩ := exists_stage_of_schedule hschedule
  exact ⟨stage, hstage, _, _, hcalls, by simp⟩

/-- What is made in a course is a beginning of the schedule. -/
theorem Course.issued (h : Course asks raises stages memory done failed outcome) :
    done ++ failed.toList <+: schedule asks stages memory := by
  induction h with
  | finished memory => exact List.nil_prefix
  | onward accepted behind ih =>
    rw [schedule_cons accepted, List.append_assoc]
    exact (List.prefix_append_right_inj _).mpr ih
  | refused refusal => exact List.nil_prefix
  | @broken stage rest memory done failed fault raised within =>
    refine within.trans ?_
    cases hasks : asks stage memory with
    | ok calls =>
      rw [schedule_cons hasks, schedule_cons hasks, schedule, List.append_nil]
      exact List.prefix_append ..
    | error cause =>
      rw [schedule, hasks]
      exact List.nil_prefix

/-- A course that comes to its end has made all calls of the schedule. -/
theorem Course.finish (h : Course asks raises stages memory done failed (.ok ())) :
    Accepted asks stages memory ∧ done = schedule asks stages memory ∧ failed = none := by
  generalize houtcome : Except.ok () = outcome at h
  induction h with
  | finished memory => exact ⟨trivial, rfl, rfl⟩
  | onward accepted behind ih =>
    obtain ⟨hrest, rfl, rfl⟩ := ih houtcome
    exact ⟨⟨_, accepted, hrest⟩, (schedule_cons accepted).symm, rfl⟩
  | refused refusal => cases houtcome
  | broken raised within => cases houtcome

/-- Where a course ends in a fault, the stages before the one in progress are done and no later one
has begun, and the fault is that of a call that failed or that of the refusal. -/
theorem Course.stopped {fault : Fault}
    (h : Course asks raises stages memory done failed (.error fault)) :
    ∃ earlier stage later within, stages = earlier ++ stage :: later ∧
      Accepted asks earlier memory ∧
      done ++ failed.toList = schedule asks earlier memory ++ within ∧
      ((∃ cause, raises cause ∧ fault = named stage.name cause ∧
          within <+: schedule asks [stage] (memory.replay (schedule asks earlier memory))) ∨
        ∃ cause, asks stage (memory.replay (schedule asks earlier memory)) = .error cause ∧
          fault = named stage.name cause ∧ within = [] ∧ failed = none) := by
  -- each stage that is gone through is one more before the stage in progress
  generalize houtcome : Except.error fault = outcome at h
  induction h with
  | finished memory => cases houtcome
  | @onward stage rest memory calls done failed outcome accepted behind ih =>
    obtain ⟨earlier, current, later, within, rfl, haccepted, hdone, hfault⟩ := ih houtcome
    refine ⟨stage :: earlier, current, later, within, rfl, ⟨calls, accepted, haccepted⟩, ?_, ?_⟩
    · rw [schedule_cons accepted, List.append_assoc, List.append_assoc, hdone]
    · rw [schedule_cons accepted, Memory.replay_append]
      exact hfault
  | @refused stage rest memory cause refusal =>
    cases houtcome
    exact ⟨[], stage, rest, [], rfl, trivial, rfl, .inr ⟨cause, refusal, rfl, rfl, rfl⟩⟩
  | @broken stage rest memory done failed cause raised within =>
    cases houtcome
    exact ⟨[], stage, rest, done ++ failed.toList, rfl, trivial, rfl,
      .inl ⟨cause, raised, rfl, within⟩⟩

/-- A stage that is refused ends each course that comes so far without a call that fails. -/
theorem Course.refusal (h : Course asks raises stages memory done failed outcome)
    {earlier later : List Stage} {stage : Stage} (hstages : stages = earlier ++ stage :: later)
    (haccepted : Accepted asks earlier memory) {cause : Fault}
    (hrefused : asks stage (memory.replay (schedule asks earlier memory)) = .error cause) :
    (outcome = .error (named stage.name cause) ∧ failed = none ∧
        done = schedule asks earlier memory) ∨
      ∃ current ∈ earlier ++ [stage], ∃ fault, raises fault ∧
        outcome = .error (named current.name fault) := by
  -- the course goes along the accepted stages, and can leave them early by a failed call only
  induction h generalizing earlier with
  | finished memory => simp at hstages
  | @onward first rest memory calls done failed outcome accepted behind ih =>
    cases earlier with
    | nil =>
      obtain ⟨rfl, rfl⟩ := List.cons.inj hstages
      rw [schedule, Memory.replay_nil, accepted] at hrefused
      cases hrefused
    | cons other earlier =>
      obtain ⟨rfl, rfl⟩ := List.cons.inj hstages
      obtain ⟨calls', hcalls, hrest⟩ := haccepted
      cases Except.ok.inj (accepted.symm.trans hcalls)
      rw [schedule_cons accepted, Memory.replay_append] at hrefused
      rcases ih rfl hrest hrefused with ⟨houtcome, hfailed, hdone⟩ | ⟨current, hcurrent, hfault⟩
      · exact .inl ⟨houtcome, hfailed, by rw [schedule_cons accepted, hdone]⟩
      · exact .inr ⟨current, List.mem_cons_of_mem _ hcurrent, hfault⟩
  | @refused first rest memory fault refusal =>
    cases earlier with
    | nil =>
      obtain ⟨rfl, rfl⟩ := List.cons.inj hstages
      rw [schedule, Memory.replay_nil, refusal] at hrefused
      cases Except.error.inj hrefused
      exact .inl ⟨rfl, rfl, rfl⟩
    | cons other earlier =>
      obtain ⟨rfl, -⟩ := List.cons.inj hstages
      obtain ⟨calls, hcalls, -⟩ := haccepted
      rw [refusal] at hcalls
      cases hcalls
  | @broken first rest memory done failed fault raised within =>
    cases earlier with
    | nil =>
      obtain ⟨rfl, -⟩ := List.cons.inj hstages
      exact .inr ⟨first, by simp, fault, raised, rfl⟩
    | cons other earlier =>
      obtain ⟨rfl, -⟩ := List.cons.inj hstages
      exact .inr ⟨first, by simp, fault, raised, rfl⟩

/-! ### Courses in a row -/

/-- Other faults may be raised, as long as those that were are among them. -/
theorem Course.mono {other : Fault → Prop} (hraises : ∀ fault, raises fault → other fault)
    (h : Course asks raises stages memory done failed outcome) :
    Course asks other stages memory done failed outcome := by
  induction h with
  | finished memory => exact .finished memory
  | onward accepted behind ih => exact .onward accepted ih
  | refused refusal => exact .refused refusal
  | broken raised within => exact .broken (hraises _ raised) within

/-- Behind stages that are done others follow. -/
theorem Course.append {more : List Call} {last : Option Call} {final : Except Fault Unit}
    (h : Course asks raises stages memory done failed (.ok ()))
    (h' : Course asks raises rest (memory.replay done) more last final) :
    Course asks raises (stages ++ rest) memory (done ++ more) last final := by
  generalize houtcome : Except.ok () = outcome at h
  induction h with
  | finished memory => exact h'
  | onward accepted behind ih =>
    rw [Memory.replay_append] at h'
    rw [List.append_assoc]
    exact .onward accepted (ih h' houtcome)
  | refused refusal => cases houtcome
  | broken raised within => cases houtcome

/-- A course that ends in a fault does so whatever stages would have followed. -/
theorem Course.append_error {fault : Fault} (rest : List Stage)
    (h : Course asks raises stages memory done failed (.error fault)) :
    Course asks raises (stages ++ rest) memory done failed (.error fault) := by
  generalize houtcome : Except.error fault = outcome at h
  induction h with
  | finished memory => cases houtcome
  | onward accepted behind ih => exact .onward accepted (ih houtcome)
  | refused refusal => exact .refused refusal
  | broken raised within => exact .broken raised within

/-! ### Work that goes a course -/

/-- A run of the work goes a course of some stages. -/
def Follows {α : Type} (asks : Stage → Memory → Except Fault (List Call)) (work : Work α)
    (deployment : Deployment) (world : World) (stages : List Stage) : Prop :=
  ∃ outcome later done failed, work.runOn deployment world = (outcome, later) ∧
    world.After done failed later ∧
    Course asks world.Raises stages world.memory done failed (outcome.map fun _ => ())

theorem follows_pure {α : Type} (value : α) :
    Follows asks (pure value : Work α) deployment world [] :=
  ⟨.ok value, world, [], none, rfl, .refl world, .finished _⟩

/-- A step renames the fault that its work ends in. -/
theorem runOn_step {α : Type} (name : String) (work : Work α) :
    (step name work).runOn deployment world =
      ((work.runOn deployment world).1.mapError (named name),
        (work.runOn deployment world).2) := by
  rw [step, Work.runOn_tryCatch]
  rcases work.runOn deployment world with ⟨fault | value, later⟩
  · cases fault <;> rfl
  · rfl

/-- A step whose work does what a stage asks goes the course of the stage. -/
theorem follows_step {α : Type} {work : Work α} {stage : Stage}
    (h : work.Does deployment world (asks stage world.memory)) :
    Follows asks (step stage.name work) deployment world [stage] := by
  -- whatever is asked, a run that is halted is so within the calls of the stage
  have hbroken : ∀ {calls outcome}, calls = schedule asks [stage] world.memory →
      work.Performs deployment world calls outcome True →
      (∀ later, work.runOn deployment world = (outcome, later) → world.After calls none later →
        Course asks world.Raises [stage] world.memory calls none
          ((outcome.mapError (named stage.name)).map fun _ => ())) →
      Follows asks (step stage.name work) deployment world [stage] := by
    intro calls outcome hcalls hperforms hcompleted
    cases hperforms with
    | completed later run after =>
      exact ⟨_, later, calls, none, by rw [runOn_step, run], after, hcompleted later run after⟩
    | halted fault done failed later failing run within after =>
      obtain ⟨cause, hraises, hcause⟩ := failing
      cases hcause trivial
      rw [hcalls] at within
      exact ⟨_, later, done, failed, by rw [runOn_step, run], after, .broken hraises within⟩
  cases hasks : asks stage world.memory with
  | ok calls =>
    rw [hasks] at h
    obtain ⟨value, hperforms⟩ := h
    refine hbroken (by rw [schedule_cons hasks, schedule, List.append_nil]) hperforms
      fun later _ _ => ?_
    rw [← List.append_nil calls]
    exact .onward hasks (.finished _)
  | error fault =>
    rw [hasks] at h
    exact hbroken (by rw [schedule, hasks]) h fun later _ _ => .refused hasks

/-- Work in a row goes the courses of its parts in a row. -/
theorem Follows.bind {α β : Type} {work : Work α} {next : α → Work β}
    (h : Follows asks work deployment world stages)
    (hnext : ∀ value later done, work.runOn deployment world = (.ok value, later) →
      world.After done none later → Follows asks (next value) deployment later rest) :
    Follows asks (work >>= next) deployment world (stages ++ rest) := by
  obtain ⟨outcome, later, done, failed, hrun, hafter, hcourse⟩ := h
  cases outcome with
  | error fault =>
    refine ⟨.error fault, later, done, failed, ?_, hafter, hcourse.append_error rest⟩
    rw [Work.runOn_bind, hrun]
  | ok value =>
    obtain ⟨-, -, rfl⟩ := hcourse.finish
    obtain ⟨final, last, more, missed, hrun', hafter', hcourse'⟩ :=
      hnext value later done hrun hafter
    refine ⟨final, last, done ++ more, missed, ?_, hafter.trans hafter', hcourse.append ?_⟩
    · rw [Work.runOn_bind, hrun]
      exact hrun'
    · rw [hafter.memory] at hcourse'
      exact hcourse'.mono hafter.raises

/-! ### Commits -/

section

variable (plan : EntityType → List Change) (space target : Space)

/-- A pass over types that writes their copies goes the course of their stages. -/
theorem follows_writeAll (h : deployment.Standard) (hworld : world.Probed) (time : Instant)
    (types : List EntityType) (applied : Table Counts) :
    Follows (Stage.calls plan space target time)
      (writeAll plan space target types applied) deployment world
      ((types.filter fun type => !(Change.writes (plan type)).isEmpty).map .write) := by
  -- the rest of the types starts in the world that the first one leaves
  induction types generalizing world applied with
  | nil => exact follows_pure applied
  | cons type rest ih =>
    rw [writeAll, List.filter_cons]
    cases hnone : (Change.writes (plan type)).isEmpty with
    | true => exact ih hworld applied
    | false =>
      have hwrite := does_write plan space target h hworld type time
      have hstep : Follows (Stage.calls plan space target time) _ deployment world [.write type] :=
        follows_step hwrite
      exact hstep.bind fun counts later done _ hafter =>
        ih (hafter.probed hworld) (record applied type counts)

/-- A pass over types that removes copies goes the course of their stages. -/
theorem follows_removeAll (h : deployment.Standard) (hworld : world.Probed) (time : Instant)
    (types : List EntityType) (applied : Table Counts) :
    Follows (Stage.calls plan space target time)
      (removeAll plan target types applied) deployment world
      ((types.filter fun type => !(Change.removals (plan type)).isEmpty).map .remove) := by
  induction types generalizing world applied with
  | nil => exact follows_pure applied
  | cons type rest ih =>
    rw [removeAll, List.filter_cons]
    cases hnone : (Change.removals (plan type)).isEmpty with
    | true => exact ih hworld applied
    | false =>
      have hremove := does_remove plan space target h hworld type time
      have hstep : Follows (Stage.calls plan space target time) _ deployment world [.remove type] :=
        follows_step hremove
      exact hstep.bind fun count later done _ hafter =>
        ih (hafter.probed hworld) (record applied type [(Operation.remove.name, count)])

/-- What a commit does about the policy goes the course of its stage, at some point in time. -/
theorem follows_policyWork (h : deployment.Standard) (hworld : world.Probed)
    (withPolicy : Bool) :
    ∃ time, Follows (Stage.calls plan space target time)
      (policyWork withPolicy space target) deployment world
      (if withPolicy then [.policy] else []) := by
  cases withPolicy with
  | false => exact ⟨0, follows_pure false⟩
  | true =>
    obtain ⟨time, hpolicy⟩ := does_policy plan space target h hworld
    have hstep : Follows (Stage.calls plan space target time) _ deployment world [.policy] :=
      follows_step hpolicy
    exact ⟨time, hstep⟩

/-- A commit goes the course of its stages. -/
theorem follows_execute (h : deployment.Standard) (hworld : world.Probed) (withPolicy : Bool) :
    ∃ time, Follows (Stage.calls plan space target time)
      (execute plan withPolicy space target) deployment world
      (Commit.stages plan withPolicy) := by
  have hwrites := fun time => follows_writeAll plan space target h hworld time
    EntityType.writeOrder []
  -- the point in time is that of the world where the copies are written
  obtain ⟨outcome, written, done, failed, hrun, hafter, -⟩ := hwrites 0
  obtain ⟨time, hpolicy⟩ :=
    follows_policyWork plan space target h (hafter.probed hworld) withPolicy
  rw [execute_eq]
  refine ⟨time, (hwrites time).bind fun applied later _ hwritten hafter' => ?_⟩
  obtain ⟨-, rfl⟩ := Prod.mk.inj (hrun.symm.trans hwritten)
  refine hpolicy.bind fun updated promoted _ _ hpromoted => ?_
  have hremove := follows_removeAll plan space target h
    (hpromoted.probed (hafter'.probed hworld)) time EntityType.writeOrder.reverse applied
  rw [← List.append_nil (List.map _ _)]
  exact hremove.bind fun _ _ _ _ _ => follows_pure _

end

/-- A promotion ends where it reads the gate or the ledger, or goes the course of a commit. -/
theorem promote_course (h : deployment.Standard) (hworld : world.Probed)
    (htarget : space.target? = some target) (submitted : ChangeSet) :
    ∃ outcome later done failed,
      (promote space submitted).runOn deployment world = (outcome, later) ∧
      world.After done failed later ∧
      ((∃ fault gated, (Gate.ensure space).runOn deployment world = (.error fault, gated) ∧
          outcome = .error fault ∧ done = [] ∧ failed = none) ∨
        ∃ gated, (Gate.ensure space).runOn deployment world = (.ok (), gated) ∧
          ((∃ fault read,
              (Preview.changesOf space).runOn deployment gated = (.error fault, read) ∧
              outcome = .error fault ∧ done = [] ∧ failed = none) ∨
            ∃ fresh read time,
              (Preview.changesOf space).runOn deployment gated = (.ok fresh, read) ∧
              Course (Stage.calls (Commit.plan submitted fresh) space target time) world.Raises
                (Commit.stages (Commit.plan submitted fresh) submitted.hasPolicyUpdate)
                world.memory done failed (outcome.map fun _ => ()))) := by
  have hsuccessor : (Work.ofExcept (Preview.successor space)).runOn deployment world =
      (.ok target, world) := by
    rw [Work.runOn_ofExcept, Preview.successor, htarget]
  have hgated := Gate.reads_ensure h space world
  simp only [promote, Work.runOn_bind, hsuccessor]
  rcases hgate : (Gate.ensure space).runOn deployment world with ⟨fault | ⟨⟨⟩⟩, gated⟩
  · rw [hgate] at hgated
    exact ⟨.error fault, gated, [], none, rfl, hgated, .inl ⟨fault, gated, rfl, rfl, rfl, rfl⟩⟩
  rw [hgate] at hgated
  have hread := hgated.trans (Preview.reads_changesOf h space gated)
  dsimp only
  rcases hledger : (Preview.changesOf space).runOn deployment gated with ⟨fault | fresh, read⟩
  · rw [hledger] at hread
    exact ⟨.error fault, read, [], none, rfl, hread,
      .inr ⟨gated, rfl, .inl ⟨fault, read, hledger, rfl, rfl, rfl⟩⟩⟩
  rw [hledger] at hread
  dsimp only
  obtain ⟨time, outcome, later, done, failed, hrun, hafter, hcourse⟩ :=
    follows_execute (Commit.plan submitted fresh) space target h (hread.probed hworld)
      submitted.hasPolicyUpdate
  rw [hread.memory_eq] at hcourse
  exact ⟨outcome, later, done, failed, hrun, hread.trans hafter,
    .inr ⟨gated, rfl, .inr ⟨fresh, read, time, hledger, hcourse.mono hread.raises⟩⟩⟩

end Commit

end Lifecycle
