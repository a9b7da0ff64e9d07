import Lifecycle.Proofs.PolicyContent

/-!
# Commits from beginning to end

The script of a commit stands in three parts: the copies that are written, the policy, and the
copies that are removed (`Commit.script`). A commit whose sources are all there, and whose policy
can be read, performs its script (`performs_execute`), and a commit that is completed has found them
and made the calls of its script (`after_execute`). The script edits the documents of each type as
it says, whatever part of a plan it stands for (`entities_replay_script`).
-/

namespace Lifecycle

variable {deployment : Deployment} {world : World} {space target : Space}

namespace Commit

variable {plan : EntityType → List Change}

/-! ### Scripts -/

theorem nodup_writeOrder : EntityType.writeOrder.Nodup := by decide

theorem mem_writeOrder (type : EntityType) : type ∈ EntityType.writeOrder := by
  cases type <;> decide

/-- Putting the planned copies leaves those that are planned to be removed. -/
theorem copyOf?_putCopies (target : Space) {docs : Documents} (horderly : docs.Orderly)
    {ids removed : List String}
    (hdistinct : (ids ++ removed).Nodup) (hhas : ∀ id ∈ ids, docs.Has space id) :
    (docs.putCopies target (bodyFor docs space target) ids).Orderly ∧
      ∀ id ∈ removed, (docs.putCopies target (bodyFor docs space target) ids).copyOf? target id =
        docs.copyOf? target id := by
  obtain ⟨hids, -, hapart⟩ := List.nodup_append.mp hdistinct
  obtain ⟨hchanged, -⟩ := Documents.putCopies_changed horderly target hids fun id hmem =>
    Documents.fits_bodyFor horderly target (hhas id hmem)
  refine ⟨hchanged.orderly, fun id hmem => hchanged.copyOf?_eq horderly fun _ hin => ?_⟩
  exact hapart id hin id hmem rfl

/-- The calls of a commit: for copies, for the policy, and for removals. -/
def script (docs : EntityType → Documents) (space target : Space)
    (written removed : EntityType → List String) (policy : List Call) : List Call :=
  EntityType.writeOrder.flatMap (fun type => copyCalls (docs type) type space target (written type))
    ++ (policy ++ EntityType.writeOrder.reverse.flatMap fun type =>
      removalCalls (docs type) type target (removed type))

section

variable {memory : Memory} {docs : EntityType → Documents}
  {written removed : EntityType → List String} {policy : List Call}

theorem entities_replay_policy (hpolicy : ∀ call ∈ policy, call.index = ".cti-policies")
    (type : EntityType) : (memory.replay policy).entities type = memory.entities type := by
  apply Memory.documents_replay_of_ne
  intro call hcall heq
  rw [hpolicy call hcall] at heq
  exact indexFor_ne_policies type heq.symm

/-- A script edits the documents of each type. -/
theorem entities_replay_script (hdocs : ∀ type, memory.entities type = docs type)
    (horderly : ∀ type, (docs type).Orderly)
    (hdistinct : ∀ type, (written type ++ removed type).Nodup)
    (hhas : ∀ type, ∀ id ∈ written type, (docs type).Has space id)
    (hpolicy : ∀ call ∈ policy, call.index = ".cti-policies") (type : EntityType) :
    (memory.replay (script docs space target written removed policy)).entities type =
      (docs type).edited space target (written type) (removed type) := by
  have hput := copyOf?_putCopies target (horderly type) (hdistinct type) (hhas type)
  set middle := (memory.replay (EntityType.writeOrder.flatMap fun type =>
    copyCalls (docs type) type space target (written type))).replay policy with hmiddle
  have hwritten : middle.entities type =
      (docs type).putCopies target (bodyFor (docs type) space target) (written type) := by
    rw [hmiddle, entities_replay_policy hpolicy, entities_replay_writes hdocs nodup_writeOrder,
      if_pos (mem_writeOrder type)]
  have hreverse : EntityType.writeOrder.reverse.Nodup := by decide
  have hsame : ∀ id ∈ removed type,
      (middle.entities type).copyOf? target id = (docs type).copyOf? target id := by
    rw [hwritten]
    exact hput.2
  rw [script, Memory.replay_append, Memory.replay_append, ← hmiddle,
    entities_replay_removals hreverse target _ type hsame,
    if_pos (List.mem_reverse.mpr (mem_writeOrder type)), hwritten]
  rfl

end

/-! ### The part for the policy -/

/-- The calls that promote a policy, if one is to be promoted. -/
def policyScript (target : Space) (source current : Option PolicyRecord) (time : Instant) :
    List Call :=
  source.elim [] fun source => policyCalls target source current time

/-- The policies after one was promoted, if one was. -/
def policiesAfter (docs : Documents) (target : Space) (source current : Option PolicyRecord)
    (time : Instant) : Documents :=
  source.elim docs fun source => promotedPolicies docs target source current time

theorem policiesAfter_none (docs : Documents) (target : Space) (current : Option PolicyRecord)
    (time : Instant) : policiesAfter docs target none current time = docs := rfl

theorem index_of_mem_policyScript {source current : Option PolicyRecord} {time : Instant}
    {call : Call} (h : call ∈ policyScript target source current time) :
    call.index = ".cti-policies" := by
  cases source with
  | none => cases h
  | some source => exact index_of_mem_policyCalls h

/-- Policies are promoted at two points in time to the same bodies, but for the time. -/
theorem unstamped_policiesAfter {docs : Documents} {space target : Space}
    {source current : Option PolicyRecord} (hstored : ∀ record, source = some record →
      Policies.stored? docs space = .ok (some record) ∧
        Policies.stored? docs target = .ok current) (time other : Instant) (key : String) :
    (Table.get? (policiesAfter docs target source current time) key).map Content.unstamped =
      (Table.get? (policiesAfter docs target source current other) key).map
        Content.unstamped := by
  cases source with
  | none => rw [policiesAfter_none, policiesAfter_none]
  | some record =>
    obtain ⟨hsource, hcurrent⟩ := hstored record rfl
    obtain ⟨origin, hbase⟩ := exists_belongs_placeOf hsource hcurrent
      (promotedDocument record.document current)
    rw [policiesAfter, policiesAfter, Option.elim_some, Option.elim_some, promotedPolicies,
      promotedPolicies]
    split
    · rfl
    · dsimp only
      rw [Table.get?_put, Table.get?_put]
      split
      · exact congrArg some (Policies.unstamped_savedBody_stamped hbase target _ time other)
      · rfl

theorem policies_replay_policyScript (memory : Memory) (source current : Option PolicyRecord)
    (time : Instant) :
    (memory.replay (policyScript target source current time)).policies =
      policiesAfter memory.policies target source current time := by
  cases source with
  | none => rfl
  | some source => exact policies_replay_policyCalls memory target source current time

/-- A script changes the policies as its part for the policy does. -/
theorem policies_replay_script (memory : Memory) (docs : EntityType → Documents)
    (space target : Space) (written removed : EntityType → List String)
    (source current : Option PolicyRecord) (time : Instant) :
    (memory.replay (script docs space target written removed
      (policyScript target source current time))).policies =
      policiesAfter memory.policies target source current time := by
  have hwritten : (memory.replay (EntityType.writeOrder.flatMap fun type =>
      copyCalls (docs type) type space target (written type))).policies = memory.policies :=
    Memory.policies_replay_flatMap (fun type call => index_of_mem_copyCalls) memory _
  rw [script, Memory.replay_append, Memory.replay_append,
    Memory.policies_replay_flatMap (fun type call => index_of_mem_removalCalls),
    policies_replay_policyScript, hwritten]

theorem index_of_mem_script {docs : EntityType → Documents}
    {written removed : EntityType → List String} {source current : Option PolicyRecord}
    {time : Instant} {call : Call}
    (h : call ∈ script docs space target written removed
      (policyScript target source current time)) :
    call.index = ".cti-policies" ∨ ∃ type, call.index = ({} : ContentSettings).indexFor type := by
  rw [script, List.mem_append, List.mem_append, List.mem_flatMap, List.mem_flatMap] at h
  rcases h with ⟨type, -, hcall⟩ | hcall | ⟨type, -, hcall⟩
  · exact .inr ⟨type, index_of_mem_copyCalls hcall⟩
  · exact .inl (index_of_mem_policyScript hcall)
  · exact .inr ⟨type, index_of_mem_removalCalls hcall⟩

/-! ### Performing a script -/

theorem performs_policyWork (h : deployment.Standard) (hworld : world.Standing)
    (space target : Space) (source current : Option PolicyRecord)
    (hsource : ∀ record, source = some record →
      Policies.stored? world.memory.policies space = .ok (some record) ∧
        Policies.stored? world.memory.policies target = .ok current) :
    ∃ time, (policyWork source.isSome space target).Performs deployment world
      (policyScript target source current time)
      (.ok (source.elim false fun record => !samePolicy record current)) := by
  cases source with
  | none => exact ⟨0, Work.performs_pure false⟩
  | some record =>
    obtain ⟨hspace, htarget⟩ := hsource record rfl
    obtain ⟨time, hpromote⟩ := performs_promotePolicy h hworld hspace htarget
    exact ⟨time, performs_step policyStep hpromote⟩

/-- What a commit that performs its script reports. -/
def reportOf (docs : EntityType → Documents) (plan : EntityType → List Change)
    (space target : Space) (source current : Option PolicyRecord) : Report :=
  { space, target
    applied := removedCounts docs plan target EntityType.writeOrder.reverse
      (writtenCounts plan EntityType.writeOrder [])
    policyUpdated := source.elim false fun record => !samePolicy record current }

/-- A commit whose sources are there, and whose policy can be read if it is to be promoted,
performs its script. -/
theorem performs_execute (h : deployment.Standard) (hworld : world.Standing)
    {docs : EntityType → Documents} (hdocs : ∀ type, world.memory.entities type = docs type)
    (horderly : ∀ type, (docs type).Orderly) (hplan : ∀ type, Change.Regular (plan type))
    (hhas : ∀ type, ∀ id ∈ writeIds plan type, (docs type).Has space id)
    {source current : Option PolicyRecord}
    (hsource : ∀ record, source = some record →
      Policies.stored? world.memory.policies space = .ok (some record) ∧
        Policies.stored? world.memory.policies target = .ok current) :
    ∃ time, (execute plan source.isSome space target).Performs deployment world
      (script docs space target (writeIds plan) (removalIds plan)
        (policyScript target source current time))
      (.ok (reportOf docs plan space target source current)) := by
  have hput := fun type => copyOf?_putCopies target (horderly type) (hplan type).nodup_parts
    (hhas type)
  have hreverse : EntityType.writeOrder.reverse.Nodup := by decide
  rw [execute_eq]
  refine (performs_writeAll h hworld nodup_writeOrder (fun type _ => hdocs type) horderly
    (fun type _ => hhas type) []).bind_exists fun written hwritten => ?_
  have hstanding := hworld.after hwritten
  -- the writes of copies have left the policies
  have hpolicies : written.memory.policies = world.memory.policies := by
    rw [hwritten.memory]
    exact Memory.policies_replay_flatMap (fun type call => index_of_mem_copyCalls) _ _
  obtain ⟨time, hpolicy⟩ := performs_policyWork h hstanding space target source current
    (by rwa [hpolicies])
  refine ⟨time, hpolicy.bind fun promoted hpromoted => ?_⟩
  -- and that of the policy has left the copies
  have hentities : ∀ type, promoted.memory.entities type =
      (docs type).putCopies target (bodyFor (docs type) space target) (writeIds plan type) := by
    intro type
    rw [hpromoted.memory, entities_replay_policy fun call => index_of_mem_policyScript,
      hwritten.memory, entities_replay_writes hdocs nodup_writeOrder, if_pos (mem_writeOrder type)]
  have hremove := performs_removeAll docs h (hstanding.after hpromoted) hreverse
    (fun type _ => by rw [hentities]; exact (hput type).1)
    (fun type _ => by rw [hentities]; exact (hput type).2)
    (writtenCounts plan EntityType.writeOrder [])
  rw [← List.append_nil (EntityType.writeOrder.reverse.flatMap _)]
  exact hremove.bind fun _ _ =>
    Work.performs_pure (reportOf docs plan space target source current)

/-! ### Completed commits -/

/-- A pass over types that is completed has found all sources. -/
theorem has_of_writeAll (h : deployment.Standard) (hworld : world.Standing)
    {docs : EntityType → Documents} {types : List EntityType} (hdistinct : types.Nodup)
    (hdocs : ∀ type ∈ types, world.memory.entities type = docs type)
    (horderly : ∀ type, (docs type).Orderly) {applied counts : Table Counts} {later : World}
    (hrun : (writeAll plan space target types applied).runOn deployment world =
      (.ok counts, later)) :
    ∀ type ∈ types, ∀ id ∈ writeIds plan type, (docs type).Has space id := by
  induction types generalizing world applied with
  | nil => simp
  | cons first rest ih =>
    obtain ⟨hnew, hrest⟩ := List.nodup_cons.mp hdistinct
    have hdocsRest : ∀ type ∈ rest, world.memory.entities type = docs type :=
      fun type htype => hdocs type (List.mem_cons_of_mem _ htype)
    rw [writeAll] at hrun
    cases hchanges : Change.writes (plan first) with
    | nil =>
      have hnone : writeIds plan first = [] := by rw [writeIds, hchanges]; rfl
      rw [hchanges] at hrun
      intro type htype
      rcases List.mem_cons.mp htype with rfl | htype
      · rw [hnone]
        simp
      · exact ih hworld hrest hdocsRest hrun type htype
    | cons change changes =>
      rw [hchanges] at hrun
      obtain ⟨found, middle, hstep, hnext⟩ := Work.runOn_bind_ok hrun
      have hwrite := runOn_of_step hstep
      have hids : writeIds plan first = Change.ids (change :: changes) := by
        rw [writeIds, hchanges]
      have hfirst := hdocs first List.mem_cons_self
      by_cases hhas : ∀ id ∈ Change.ids (change :: changes), (docs first).Has space id
      · obtain ⟨-, hafter⟩ :=
          (performs_write h hworld hfirst (horderly first) target hhas).of_ok hwrite
        intro type htype
        rcases List.mem_cons.mp htype with rfl | htype
        · rw [hids]
          exact hhas
        · refine ih (hworld.after hafter) hrest (fun other hother => ?_) hnext type htype
          rw [← hdocsRest other hother]
          apply entities_after hafter (fun call => index_of_mem_copyCalls)
          rintro rfl
          exact hnew hother
      · -- without all its sources the write would have failed
        have hstale := performs_write_stale h hworld hfirst (horderly first) target hhas
        exact absurd (hstale.of_ok hwrite).1 (by simp)

/-- What is done about the policy in a commit that is completed. -/
theorem after_policyWork (h : deployment.Standard) (hworld : world.Standing) {withPolicy : Bool}
    {updated : Bool} {later : World}
    (hrun : (policyWork withPolicy space target).runOn deployment world = (.ok updated, later)) :
    ∃ source current time, source.isSome = withPolicy ∧
      (∀ record, source = some record →
        Policies.stored? world.memory.policies space = .ok (some record) ∧
          Policies.stored? world.memory.policies target = .ok current) ∧
      world.After (policyScript target source current time) none later := by
  cases withPolicy with
  | false =>
    obtain ⟨-, rfl⟩ := Prod.mk.inj hrun
    exact ⟨none, none, 0, rfl, nofun, .refl _⟩
  | true =>
    obtain ⟨source, current, time, hsource, hcurrent, hafter⟩ :=
      after_promotePolicy h hworld (runOn_of_step hrun)
    refine ⟨some source, current, time, rfl, ?_, hafter⟩
    rintro record hrecord
    rw [← Option.some.inj hrecord]
    exact ⟨hsource, hcurrent⟩

/-- A commit that is completed has found all sources and the policy, and has made the calls of its
script. -/
theorem after_execute (h : deployment.Standard) (hworld : world.Standing)
    {docs : EntityType → Documents} (hdocs : ∀ type, world.memory.entities type = docs type)
    (horderly : ∀ type, (docs type).Orderly) (hplan : ∀ type, Change.Regular (plan type))
    {withPolicy : Bool} {report : Report} {later : World}
    (hrun : (execute plan withPolicy space target).runOn deployment world = (.ok report, later)) :
    ∃ source current time, source.isSome = withPolicy ∧
      (∀ record, source = some record →
        Policies.stored? world.memory.policies space = .ok (some record) ∧
          Policies.stored? world.memory.policies target = .ok current) ∧
      (∀ type, ∀ id ∈ writeIds plan type, (docs type).Has space id) ∧
      world.After (script docs space target (writeIds plan) (removalIds plan)
        (policyScript target source current time)) none later := by
  rw [execute_eq] at hrun
  obtain ⟨applied, written, hwrites, hrun⟩ := Work.runOn_bind_ok hrun
  obtain ⟨updated, promoted, hpolicy, hrun⟩ := Work.runOn_bind_ok hrun
  obtain ⟨counts, removed, hremovals, hrun⟩ := Work.runOn_bind_ok hrun
  obtain ⟨-, rfl⟩ := Prod.mk.inj hrun
  have hhas := has_of_writeAll h hworld nodup_writeOrder (fun type _ => hdocs type) horderly hwrites
  have hafter := ((performs_writeAll h hworld nodup_writeOrder (fun type _ => hdocs type) horderly
    hhas []).of_ok hwrites).2
  -- the writes of copies have left the policies
  have hpolicies : written.memory.policies = world.memory.policies := by
    rw [hafter.memory]
    exact Memory.policies_replay_flatMap (fun type call => index_of_mem_copyCalls) _ _
  obtain ⟨source, current, time, hwith, hstored, hafter'⟩ :=
    after_policyWork h (hworld.after hafter) hpolicy
  rw [hpolicies] at hstored
  have hput := fun type => copyOf?_putCopies target (horderly type) (hplan type).nodup_parts
    (hhas type (mem_writeOrder type))
  have hpromoted : ∀ type, promoted.memory.entities type =
      (docs type).putCopies target (bodyFor (docs type) space target) (writeIds plan type) := by
    intro type
    rw [hafter'.memory, entities_replay_policy fun call => index_of_mem_policyScript, hafter.memory,
      entities_replay_writes hdocs nodup_writeOrder, if_pos (mem_writeOrder type)]
  have hafter'' := ((performs_removeAll docs h ((hworld.after hafter).after hafter')
    (by decide : EntityType.writeOrder.reverse.Nodup)
    (fun type _ => by rw [hpromoted]; exact (hput type).1)
    (fun type _ => by rw [hpromoted]; exact (hput type).2) applied).of_ok hremovals).2
  exact ⟨source, current, time, hwith, hstored, fun type => hhas type (mem_writeOrder type),
    hafter.trans (hafter'.trans hafter'')⟩

end Commit

end Lifecycle
