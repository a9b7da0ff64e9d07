import Lifecycle.Proofs.Courses
import Lifecycle.Proofs.Effect

/-!
# Promotions that stop

A promotion stops at a point that can be told (`promote_progress`). Where the gate or the ledger
fails, nothing is written, and their fault is the outcome. Behind them the calls that are made are a
beginning of one schedule: the copies that are written, type by type in the order of the plan, at
most one policy, and then the copies that are removed in the reverse order. The fault of a call that
fails comes out as one of the stage in progress; and a type whose sources are not all there stops
the promotion before any of its copies is written, unless a call has failed by then.

This holds in any contents, under any mappings, for every ledger and every submitted change set, and
whichever calls are made to fail.
-/

namespace Lifecycle

variable {deployment : Deployment} {world : World} {space target : Space}

/-! ### Calls about other indexes -/

namespace Memory

variable {memory : Memory} {index : String}

theorem mapping_apply_of_ne {call : Call} (h : call.index ≠ index) :
    (memory.apply call).mapping index = memory.mapping index := by
  cases call with
  | upsert other id body =>
    have hne : other ≠ index := h
    rw [apply, put, ensureIndex, mapping, mapping]
    split
    · rfl
    · simp only [createIndex]
      rw [Table.get?_put, if_neg hne]
  | delete other id =>
    rw [apply, delete]
    split <;> rfl
  | search _ _ => rfl
  | byIds _ _ => rfl
  | fieldCapabilities _ _ => rfl

theorem mapping_replay_of_ne {calls : List Call} (h : ∀ call ∈ calls, call.index ≠ index) :
    (memory.replay calls).mapping index = memory.mapping index := by
  induction calls generalizing memory with
  | nil => rfl
  | cons call rest ih =>
    rw [replay_cons, ih fun call hcall => h call (List.mem_cons_of_mem _ hcall)]
    exact mapping_apply_of_ne (h call List.mem_cons_self)

/-- What a lookup of a type finds is not changed by calls about other indexes. -/
theorem copy?_replay_of_ne {type : EntityType} {calls : List Call}
    (h : ∀ call ∈ calls, call.index ≠ ({} : ContentSettings).indexFor type) (ids : List String)
    (space : Space) (id : String) :
    (memory.replay calls).copy? type ids space id = memory.copy? type ids space id := by
  -- a lookup depends on the mapping of its index also, which says how terms are compared
  rw [copy?, copy?, copies, copies, entities, entities, documents_replay_of_ne h]
  simp only [asked, carries, mapping_replay_of_ne h]

end Memory

namespace Commit

/-! ### Order of calls -/

section

variable {asks : Stage → Memory → Except Fault (List Call)} {stages : List Stage}
  {memory : Memory}

variable (hmethod : ∀ stage memory calls call, asks stage memory = .ok calls → call ∈ calls →
  call.method = stage.method ∧ call.index = stage.index)

include hmethod

/-- Where no stage that removes comes before one that writes, no call does. -/
theorem pairwise_schedule (hstages : stages.Pairwise fun earlier later =>
      earlier.method = .delete → later.method = .delete) :
    (schedule asks stages memory).Pairwise fun earlier later =>
      earlier.method = .delete → later.method = .delete := by
  induction stages generalizing memory with
  | nil => exact .nil
  | cons stage rest ih =>
    obtain ⟨hfirst, hrest⟩ := List.pairwise_cons.mp hstages
    cases hasks : asks stage memory with
    | error fault =>
      rw [schedule, hasks]
      exact .nil
    | ok calls =>
      rw [schedule_cons hasks, List.pairwise_append]
      refine ⟨List.pairwise_of_forall_mem_list fun a ha b hb => ?_, ih hrest, fun a ha b hb => ?_⟩
      · rw [(hmethod stage memory calls a hasks ha).1, (hmethod stage memory calls b hasks hb).1]
        exact id
      · obtain ⟨other, hother, found, more, hmore, hin⟩ := exists_of_mem_schedule hb
        rw [(hmethod stage memory calls a hasks ha).1, (hmethod other found more b hmore hin).1]
        exact hfirst other hother

/-- There are no more calls for policies than stages, if a stage makes one at most. -/
theorem length_policies_schedule_le
    (hone : ∀ memory calls, asks .policy memory = .ok calls → calls.length ≤ 1) :
    ((schedule asks stages memory).filter fun call => call.index == ".cti-policies").length ≤
      stages.count .policy := by
  induction stages generalizing memory with
  | nil => exact Nat.le_refl 0
  | cons stage rest ih =>
    cases hasks : asks stage memory with
    | error fault =>
      rw [schedule, hasks]
      exact Nat.zero_le _
    | ok calls =>
      rw [schedule_cons hasks, List.filter_append, List.length_append, List.count_cons]
      have hrest : ((schedule asks rest (memory.replay calls)).filter
          fun call => call.index == ".cti-policies").length ≤ rest.count .policy := ih
      by_cases hpolicy : stage = .policy
      · subst hpolicy
        have hcalls := Nat.le_trans
          (List.length_filter_le (fun call : Call => call.index == ".cti-policies") calls)
          (hone memory calls hasks)
        rw [if_pos (by simp)]
        omega
      · have hnone : calls.filter (fun call => call.index == ".cti-policies") = [] := by
          apply List.filter_eq_nil_iff.mpr
          intro call hcall
          rw [(hmethod stage memory calls call hasks hcall).2, beq_iff_eq]
          cases stage with
          | write type => exact indexFor_ne_policies type
          | policy => exact absurd rfl hpolicy
          | remove type => exact indexFor_ne_policies type
        rw [hnone, if_neg (by simpa using hpolicy)]
        simpa using hrest

end

/-- The stages that write come before those that remove. -/
theorem pairwise_stages (plan : EntityType → List Change) (withPolicy : Bool) :
    (Commit.stages plan withPolicy).Pairwise fun earlier later =>
      earlier.method = .delete → later.method = .delete := by
  rw [Commit.stages, ← List.append_assoc, List.pairwise_append]
  have hwrites : ∀ stage ∈ (EntityType.writeOrder.filter fun type =>
      !(Change.writes (plan type)).isEmpty).map Stage.write ++
        (if withPolicy then [.policy] else []), stage.method ≠ .delete := by
    intro stage hstage
    rcases List.mem_append.mp hstage with hstage | hstage
    · obtain ⟨type, -, rfl⟩ := List.mem_map.mp hstage
      simp [Stage.method]
    · split at hstage
      · rw [List.mem_singleton.mp hstage]
        simp [Stage.method]
      · cases hstage
  refine ⟨?_, ?_, ?_⟩
  · exact List.pairwise_of_forall_mem_list fun a ha b _ hdelete => absurd hdelete (hwrites a ha)
  · refine List.pairwise_of_forall_mem_list fun a _ b hb _ => ?_
    obtain ⟨type, -, rfl⟩ := List.mem_map.mp hb
    rfl
  · exact fun a ha b _ hdelete => absurd hdelete (hwrites a ha)

theorem count_policy_stages_le (plan : EntityType → List Change) (withPolicy : Bool) :
    (Commit.stages plan withPolicy).count .policy ≤ 1 := by
  have hwrites : ∀ types : List EntityType, (types.map Stage.write).count .policy = 0 :=
    fun types => List.count_eq_zero.mpr (by simp)
  have hremovals : ∀ types : List EntityType, (types.map Stage.remove).count .policy = 0 :=
    fun types => List.count_eq_zero.mpr (by simp)
  rw [Commit.stages, List.count_append, List.count_append, hwrites, hremovals]
  cases withPolicy <;> simp

/-! ### Missing sources -/

section

variable {plan : EntityType → List Change} {time : Instant} {memory : Memory}

theorem missing_replay_of_ne {type : EntityType} {calls : List Call}
    (h : ∀ call ∈ calls, call.index ≠ ({} : ContentSettings).indexFor type) :
    missing plan space (memory.replay calls) type = missing plan space memory type := by
  simp only [missing, Memory.copy?_replay_of_ne h]

/-- The stages that write some types, as far as anything is planned for them. -/
def writeStages (plan : EntityType → List Change) (types : List EntityType) : List Stage :=
  (types.filter fun type => !(Change.writes (plan type)).isEmpty).map .write

/-- Calls that write some types are about no index of another type. -/
theorem index_ne_of_mem_writeStages {types : List EntityType} {type : EntityType}
    (htype : type ∉ types) {call : Call}
    (hcall : call ∈ schedule (Stage.calls plan space target time)
      (writeStages plan types) memory) :
    call.index ≠ ({} : ContentSettings).indexFor type := by
  obtain ⟨stage, hstage, found, calls, hcalls, hmem⟩ := exists_of_mem_schedule hcall
  obtain ⟨other, hother, rfl⟩ := List.mem_map.mp hstage
  rw [(method_of_mem_calls hcalls hmem).2]
  intro hindex
  exact htype (indexFor_injective hindex ▸ (List.mem_filter.mp hother).1)

/-- Types that have all their sources are written. -/
theorem accepted_writeStages {types : List EntityType} (hdistinct : types.Nodup)
    (hall : ∀ type ∈ types, missing plan space memory type = []) :
    Accepted (Stage.calls plan space target time)
      (writeStages plan types) memory := by
  -- what is written of one type does not change which sources of another are missing
  induction types generalizing memory with
  | nil => trivial
  | cons type rest ih =>
    obtain ⟨hnew, hrest⟩ := List.nodup_cons.mp hdistinct
    rw [writeStages, List.filter_cons]
    split
    · have haccepted : ∃ calls,
          (Stage.write type).calls plan space target time memory = .ok calls := by
        rw [Stage.calls, if_pos (hall type List.mem_cons_self)]
        exact ⟨_, rfl⟩
      obtain ⟨calls, hcalls⟩ := haccepted
      refine ⟨calls, hcalls, ih hrest fun other hother => ?_⟩
      rw [missing_replay_of_ne, hall other (List.mem_cons_of_mem _ hother)]
      intro call hcall hindex
      rw [(method_of_mem_calls hcalls hcall).2] at hindex
      exact hnew (indexFor_injective hindex ▸ hother)
    · exact ih hrest fun other hother => hall other (List.mem_cons_of_mem _ hother)

end

/-! ### Progress -/

/-- How far a commit of a plan has come when it ends, by the contents it starts with: the calls it
has made, the one that failed, and the outcome. -/
structure Progress (plan : EntityType → List Change) (withPolicy : Bool) (space target : Space)
    (time : Instant) (memory : Memory) (raises : Fault → Prop) (done : List Call)
    (failed : Option Call) (outcome : Except Fault Report) : Prop where
  /-- The calls are a beginning of the schedule, and none follows one that failed. -/
  issued : done ++ failed.toList <+:
    schedule (Stage.calls plan space target time) (Commit.stages plan withPolicy) memory
  /-- No removal comes before a write. -/
  ordered : (done ++ failed.toList).Pairwise fun earlier later =>
    earlier.method = .delete → later.method = .delete
  onePolicy :
    ((done ++ failed.toList).filter fun call => call.index == ".cti-policies").length ≤ 1
  /-- A report is made of the whole schedule. -/
  reported : ∀ report, outcome = .ok report → failed = none ∧
    Accepted (Stage.calls plan space target time) (Commit.stages plan withPolicy) memory ∧
      done = schedule (Stage.calls plan space target time) (Commit.stages plan withPolicy) memory
  /-- A fault is that of a call in the stage in progress, under its name, or the refusal of the
  stage. The stages before it are done, and none behind it has begun. -/
  stopped : ∀ fault, outcome = .error fault → ∃ earlier stage later within,
    Commit.stages plan withPolicy = earlier ++ stage :: later ∧
    Accepted (Stage.calls plan space target time) earlier memory ∧
    done ++ failed.toList = schedule (Stage.calls plan space target time) earlier memory ++ within ∧
    ((∃ cause, raises cause ∧ fault = .step stage.name cause ∧
        within <+: schedule (Stage.calls plan space target time) [stage]
          (memory.replay (schedule (Stage.calls plan space target time) earlier memory))) ∨
      ∃ cause, stage.calls plan space target time
          (memory.replay (schedule (Stage.calls plan space target time) earlier memory)) =
            .error cause ∧
        fault = named stage.name cause ∧ within = [] ∧ failed = none)
  /-- The first type that lacks sources is refused as stale, unless a call has failed by then. -/
  stale : ∀ earlier type later, EntityType.writeOrder = earlier ++ type :: later →
    (∀ other ∈ earlier, missing plan space memory other = []) →
    missing plan space memory type ≠ [] →
      (outcome = .error (.stale type.name (missing plan space memory type)) ∧ failed = none ∧
        done = schedule (Stage.calls plan space target time) (writeStages plan earlier) memory) ∨
      ∃ other ∈ earlier ++ [type], ∃ fault, raises fault ∧
        outcome = .error (.step other.name fault)

theorem Course.progress {plan : EntityType → List Change} {withPolicy : Bool} {time : Instant}
    {memory : Memory} {raises : Fault → Prop} {done : List Call} {failed : Option Call}
    {outcome : Except Fault Report} (hstore : ∀ type ids, ¬raises (.stale type ids))
    (h : Course (Stage.calls plan space target time) raises (Commit.stages plan withPolicy) memory
      done failed (outcome.map fun _ => ())) :
    Progress plan withPolicy space target time memory raises done failed outcome := by
  have hnamed : ∀ name fault, raises fault → named name fault = .step name fault := by
    intro name fault hfault
    cases fault with
    | stale type ids => exact absurd hfault (hstore type ids)
    | _ => rfl
  have hended : ∀ fault, (outcome.map fun _ => ()) = .error fault → outcome = .error fault := by
    intro fault hfault
    cases outcome with
    | error cause => rw [Except.error.inj hfault]
    | ok report => cases hfault
  have hmethod : ∀ (stage : Stage) memory calls (call : Call),
      stage.calls plan space target time memory = .ok calls → call ∈ calls →
        call.method = stage.method ∧ call.index = stage.index :=
    fun _ _ _ _ => method_of_mem_calls
  refine ⟨h.issued, ?_, ?_, ?_, ?_, ?_⟩
  · exact (pairwise_schedule hmethod (pairwise_stages plan withPolicy)).sublist
      h.issued.sublist
  · have hone : ∀ memory calls, Stage.policy.calls plan space target time memory = .ok calls →
        calls.length ≤ 1 := by
      intro memory calls hcalls
      obtain ⟨source, current, -, -, rfl⟩ := policy_calls_eq_ok_iff.mp hcalls
      rw [policyCalls]
      split
      · exact Nat.zero_le 1
      · exact Nat.le_refl 1
    calc ((done ++ failed.toList).filter fun call => call.index == ".cti-policies").length
      _ ≤ _ := (h.issued.filter fun call => call.index == ".cti-policies").length_le
      _ ≤ (Commit.stages plan withPolicy).count .policy :=
        length_policies_schedule_le hmethod hone
      _ ≤ 1 := count_policy_stages_le plan withPolicy
  · rintro report rfl
    obtain ⟨haccepted, hdone, hfailed⟩ := h.finish
    exact ⟨hfailed, haccepted, hdone⟩
  · rintro fault rfl
    obtain ⟨earlier, stage, later, within, hstages, haccepted, hdone, hfault⟩ := h.stopped
    refine ⟨earlier, stage, later, within, hstages, haccepted, hdone, hfault.imp_left ?_⟩
    rintro ⟨cause, hcause, hfault, hwithin⟩
    exact ⟨cause, hcause, hfault.trans (hnamed _ _ hcause), hwithin⟩
  · intro earlier type later horder hall hsome
    have hdistinct : (earlier ++ type :: later).Nodup := by
      rw [← horder]
      decide
    obtain ⟨hearlier, -, hapart⟩ := List.nodup_append.mp hdistinct
    have hnew : type ∉ earlier := fun hmem => hapart type hmem type List.mem_cons_self rfl
    -- something is planned for the type, so that it has a stage
    have hwrites : (Change.writes (plan type)).isEmpty = false := by
      cases hchanges : Change.writes (plan type) with
      | nil => exact absurd (by simp [missing, writeIds, hchanges, Change.ids]) hsome
      | cons change rest => rfl
    have hstages : Commit.stages plan withPolicy = writeStages plan earlier ++ .write type ::
        (writeStages plan later ++ ((if withPolicy then [.policy] else []) ++
          (EntityType.writeOrder.reverse.filter fun type =>
            !(Change.removals (plan type)).isEmpty).map .remove)) := by
      rw [Commit.stages, horder, List.filter_append, List.filter_cons, hwrites]
      simp [writeStages]
    have hmissing : missing plan space (memory.replay
        (schedule (Stage.calls plan space target time) (writeStages plan earlier) memory)) type =
          missing plan space memory type :=
      missing_replay_of_ne fun call => index_ne_of_mem_writeStages hnew
    have hrefused : (Stage.write type).calls plan space target time (memory.replay
        (schedule (Stage.calls plan space target time) (writeStages plan earlier) memory)) =
          .error (.stale type.name (missing plan space memory type)) := by
      rw [Stage.calls, hmissing, if_neg hsome]
    rcases h.refusal hstages (accepted_writeStages hearlier hall) hrefused with
      ⟨houtcome, hfailed, hdone⟩ | ⟨current, hcurrent, fault, hfault, houtcome⟩
    · exact .inl ⟨hended _ houtcome, hfailed, hdone⟩
    · rw [hnamed _ _ hfault] at houtcome
      have houtcome := hended _ houtcome
      rcases List.mem_append.mp hcurrent with hmem | hmem
      · obtain ⟨other, hother, rfl⟩ := List.mem_map.mp hmem
        exact .inr ⟨other, List.mem_append_left _ (List.mem_filter.mp hother).1, fault, hfault,
          houtcome⟩
      · rw [List.mem_singleton.mp hmem] at houtcome
        exact .inr ⟨type, by simp, fault, hfault, houtcome⟩

end Commit

/-- Where a promotion stops, and what it has done then. -/
theorem promote_progress (h : deployment.Standard) (hworld : world.Probed)
    (htarget : space.target? = some target)
    (hstore : ∀ type ids, ¬world.Raises (.stale type ids)) (submitted : ChangeSet) :
    ∃ outcome later done failed,
      (Commit.promote space submitted).runOn deployment world = (outcome, later) ∧
      later.memory = world.memory.replay done ∧
      later.written = world.written ++ done ++ failed.toList ∧
      ((∃ fault gated, (Gate.ensure space).runOn deployment world = (.error fault, gated) ∧
          outcome = .error fault ∧ done = [] ∧ failed = none) ∨
        ∃ gated, (Gate.ensure space).runOn deployment world = (.ok (), gated) ∧
          ((∃ fault read,
              (Preview.changesOf space).runOn deployment gated = (.error fault, read) ∧
              outcome = .error fault ∧ done = [] ∧ failed = none) ∨
            ∃ fresh read time,
              (Preview.changesOf space).runOn deployment gated = (.ok fresh, read) ∧
              Commit.Progress (Commit.plan submitted fresh) submitted.hasPolicyUpdate space target
                time world.memory world.Raises done failed outcome)) := by
  obtain ⟨outcome, later, done, failed, hrun, hafter, hcourse⟩ :=
    Commit.promote_course h hworld htarget submitted
  refine ⟨outcome, later, done, failed, hrun, hafter.memory, hafter.written, ?_⟩
  rcases hcourse with hgate | ⟨gated, hgate, hledger | ⟨fresh, read, time, hledger, hcourse⟩⟩
  · exact .inl hgate
  · exact .inr ⟨gated, hgate, .inl hledger⟩
  · exact .inr ⟨gated, hgate, .inr ⟨fresh, read, time, hledger, hcourse.progress hstore⟩⟩

/-- The store with one decoder, where the first write fails. -/
def failingWrite : World :=
  { oneDecoder with rules := [⟨.upsert, none, 0, 1, .store "down" none⟩] }

theorem failingWrite_probed : failingWrite.Probed := by
  intro index _ fields hget
  cases hget

/-- The only fault of the store is that of its first write. -/
theorem failingWrite_raises (type : String) (ids : List String) :
    ¬failingWrite.Raises (.stale type ids) := by
  rintro ⟨rule, hrule, hfault⟩
  rw [List.mem_singleton.mp hrule] at hfault
  cases hfault

/-- The promotion of the decoder ends with a fault, and its writes are accounted for. -/
theorem promote_progress_failingWrite :
    ∃ (fault : Fault) (later : World) (done : List Call) (failed : Option Call),
      (Commit.promote .test { decoders := [⟨"x", .add⟩] }).runOn {} failingWrite =
        (.error fault, later) ∧
      later.memory = failingWrite.memory.replay done ∧
      later.written = failingWrite.written ++ done ++ failed.toList := by
  have hfailed : ((Commit.promote .test { decoders := [⟨"x", .add⟩] }).runOn {}
      failingWrite).1.toOption.isSome = false := by
    decide +kernel
  have htarget : Space.test.target? = some .custom := rfl
  obtain ⟨outcome, later, done, failed, hrun, hmemory, hwritten, -⟩ :=
    promote_progress Deployment.standard_default failingWrite_probed htarget failingWrite_raises
      { decoders := [⟨"x", .add⟩] }
  cases outcome with
  | ok report =>
    rw [hrun] at hfailed
    cases hfailed
  | error fault => exact ⟨fault, later, done, failed, hrun, hmemory, hwritten⟩

end Lifecycle
