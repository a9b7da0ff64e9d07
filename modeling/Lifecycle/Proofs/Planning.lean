import Lifecycle.Proofs.Comparing

/-!
# Plans by comparing contents

When the ledger compares contents, and no id has a tag, the plan for a type can be told from its
documents: a submitted id gets the operation that the contents ask for, and keeps its own where
they ask for none (`Ledger.mem_planIn`). A promotion that reports success has found the contents
ready for it and has made the calls of its script (`Commit.after_promote`), and where they are ready
it performs the script (`Commit.Ready.performs`).

What a preview shows is planned as it is shown (`Commit.planned_shown`), and the contents are ready
for it once the gate lets them pass. So a promotion of what was shown performs the script that the
contents ask for, up to the time that the policy is saved at (`Commit.performs_promote`).
-/

namespace Lifecycle

variable {deployment : Deployment} {world : World} {memory : Memory} {space target : Space}

/-! ### Plans -/

namespace Ledger

variable {docs : Documents}

/-- The plan for a type by its documents. -/
def planIn (docs : Documents) (space target : Space) (submitted : List Change) : List Change :=
  Change.reconciled submitted (entityChangesIn docs space target)

theorem planIn_regular (docs : Documents) (space target : Space) (submitted : List Change) :
    Change.Regular (planIn docs space target submitted) :=
  Change.reconciled_regular _ _

/-- The operation that the contents of two spaces ask for. -/
def askedOf? (docs : Documents) (space target : Space) (id : String) : Option Operation :=
  Change.operationFor (contentOf? docs space id) (contentOf? docs target id)

/-- A submitted id is planned with the operation that the contents ask for, or else its own. -/
theorem mem_planIn (h : docs.Orderly) (submitted : List Change) (id : String)
    (operation : Operation) :
    ⟨id, operation⟩ ∈ planIn docs space target submitted ↔
      ∃ given, ⟨id, given⟩ ∈ Change.normalised submitted ∧
        (askedOf? docs space target id).getD given = operation := by
  -- the table that a plan is looked up in has the operation for each id that the contents ask for
  have hasked : ∀ id, (Change.operations (entityChangesIn docs space target)).get? id =
      askedOf? docs space target id := by
    intro id
    apply Option.ext
    intro operation
    rw [(entityChangesIn_regular h space target).operations_get?, mem_entityChangesIn h]
    rfl
  rw [planIn, Change.reconciled, List.mem_map]
  simp only [hasked]
  constructor
  · rintro ⟨⟨id, given⟩, hmem, heq⟩
    obtain ⟨rfl, hplanned⟩ := Change.mk.inj heq
    exact ⟨given, hmem, hplanned⟩
  · rintro ⟨given, hmem, rfl⟩
    exact ⟨⟨id, given⟩, hmem, rfl⟩

theorem isSome_contentOf? (docs : Documents) (space : Space) (id : String) :
    (contentOf? docs space id).isSome = true ↔ docs.Has space id := by
  rw [contentOf?, Option.isSome_map, Documents.Has]

/-- The contents ask to write what the space has, and to remove what it has not. -/
theorem asked_ne_remove_iff {id : String} {operation : Operation}
    (hasked : askedOf? docs space target id = some operation) :
    operation ≠ .remove ↔ docs.Has space id := by
  rw [Change.operationFor_ne_remove hasked, isSome_contentOf?]

theorem asked_eq_none_iff (docs : Documents) (space target : Space) (id : String) :
    askedOf? docs space target id = none ↔
      contentOf? docs space id = contentOf? docs target id :=
  Change.operationFor_eq_none_iff _ _

/-- What the space has is planned to be removed only as it was submitted, where the successor has
the same content. -/
theorem removal_of_has (h : docs.Orderly) {submitted : List Change} {id : String}
    (hhas : docs.Has space id) :
    ⟨id, .remove⟩ ∈ planIn docs space target submitted ↔
      ⟨id, .remove⟩ ∈ Change.normalised submitted ∧
        contentOf? docs space id = contentOf? docs target id := by
  rw [mem_planIn h, ← asked_eq_none_iff]
  cases hasked : askedOf? docs space target id with
  | none => simp
  | some operation =>
    have hkept := (asked_ne_remove_iff hasked).mpr hhas
    simp [hkept]

/-! ### Carrying out a plan -/

/-- The ids of the copies that are planned to be written. -/
def plannedWrites (docs : Documents) (space target : Space) (submitted : List Change) :
    List String :=
  Change.ids (Change.writes (planIn docs space target submitted))

/-- The ids of the copies that are planned to be removed. -/
def plannedRemovals (docs : Documents) (space target : Space) (submitted : List Change) :
    List String :=
  Change.ids (Change.removals (planIn docs space target submitted))

/-- The documents of a type after its plan is carried out. -/
def promotedIn (docs : Documents) (space target : Space) (submitted : List Change) : Documents :=
  docs.edited space target (plannedWrites docs space target submitted)
    (plannedRemovals docs space target submitted)

section

variable {submitted : List Change} (h : docs.Orderly)
  (hsources : ∀ id ∈ plannedWrites docs space target submitted, docs.Has space id)

include h hsources

/-- What copies there are after a plan is carried out. -/
theorem promotedIn_changed :
    docs.Changed (promotedIn docs space target submitted) target
        (plannedWrites docs space target submitted ++
          plannedRemovals docs space target submitted) ∧
      (∀ id ∈ plannedWrites docs space target submitted,
        (promotedIn docs space target submitted).copyOf? target id =
          some (docs.placeOf target id, Commit.bodyFor docs space target id)) ∧
      ∀ id ∈ plannedRemovals docs space target submitted,
        (promotedIn docs space target submitted).copyOf? target id = none :=
  Documents.edited_changed h target (planIn_regular docs space target submitted).nodup_parts
    hsources

/-- The copies in the space that is promoted stay. -/
theorem copyOf?_promotedIn (hne : space ≠ target) (id : String) :
    (promotedIn docs space target submitted).copyOf? space id = docs.copyOf? space id :=
  (promotedIn_changed h hsources).1.copyOf?_eq h fun heq => absurd heq hne

end

end Ledger

/-! ### Promoting a plan -/

namespace Commit

/-- The plan that a promotion makes by comparing contents. -/
def planned (memory : Memory) (space target : Space) (submitted : ChangeSet) (type : EntityType) :
    List Change :=
  Ledger.planIn (memory.entities type) space target (submitted.of type)

/-- The script of a promotion by comparing contents, for the policy that it promotes, if it promotes
one, the one that this replaces, and the point in time that it is saved at. -/
def plannedScript (memory : Memory) (space target : Space) (submitted : ChangeSet)
    (source current : Option PolicyRecord) (time : Instant) : List Call :=
  script memory.entities space target (writeIds (planned memory space target submitted))
    (removalIds (planned memory space target submitted)) (policyScript target source current time)

/-- What a promotion needs of the contents to be completed: the leave of the gate, policies that the
ledger can compare, a source for each copy that is planned, and the policies of both spaces if that
of the space is to be promoted. -/
structure Ready (memory : Memory) (space target : Space) (submitted : ChangeSet)
    (source current : Option PolicyRecord) : Prop where
  gate : Gate.outcome memory space = .ok ()
  compared : ∃ changes, Ledger.policyChangesIn memory.policies space target = .ok changes
  sources : ∀ type, ∀ id ∈ writeIds (planned memory space target submitted) type,
    (memory.entities type).Has space id
  update : source.isSome = submitted.hasPolicyUpdate
  policies : ∀ record, source = some record →
    Policies.stored? memory.policies space = .ok (some record) ∧
      Policies.stored? memory.policies target = .ok current

/-- What a script by comparing contents makes of them. -/
theorem replay_plannedScript {memory : Memory} (horderly : ∀ type, (memory.entities type).Orderly)
    {submitted : ChangeSet} {source current : Option PolicyRecord}
    (hready : Ready memory space target submitted source current) (time : Instant) :
    (∀ type, (memory.replay (plannedScript memory space target submitted source current
        time)).entities type =
      Ledger.promotedIn (memory.entities type) space target (submitted.of type)) ∧
    (memory.replay (plannedScript memory space target submitted source current time)).policies =
      policiesAfter memory.policies target source current time := by
  refine ⟨fun type => ?_, policies_replay_script ..⟩
  exact entities_replay_script (fun _ => rfl) horderly
    (fun type => (Ledger.planIn_regular ..).nodup_parts) hready.sources
    (fun call => index_of_mem_policyScript) type

/-- The plan that is made with what the ledger says is the one that the documents tell. -/
theorem plan_of_compared (horderly : ∀ type, (memory.entities type).Orderly)
    (htags : ∀ type, ∀ entry ∈ memory.entities type,
      Change.stripTag (Content.idOf entry.2) = Content.idOf entry.2)
    {raw : ChangeSet} (hraw : Ledger.comparedIn memory space target = .ok raw)
    (submitted : ChangeSet) :
    plan submitted raw.normalised = planned memory space target submitted := by
  funext type
  rw [plan, ChangeSet.normalised_of, (Ledger.of_comparedIn hraw).2 type,
    Ledger.normalised_entityChangesIn (horderly type) (htags type)]
  rfl

section

variable (h : deployment.Standard) (hworld : world.Standing)
  (hledger : deployment.settings.changeLedger = .contentHash)
  (hfixed : deployment.fixedChanges = none)
  (horderly : ∀ type, (world.memory.entities type).Orderly)
  (htags : ∀ type, ∀ entry ∈ world.memory.entities type,
    Change.stripTag (Content.idOf entry.2) = Content.idOf entry.2)
  (htarget : space.target? = some target) {submitted : ChangeSet}

include h hworld hledger hfixed horderly htags htarget

variable (submitted) in
/-- Behind the gate and the ledger the plan is made that the documents tell, and nothing is
written. -/
theorem after_ledger {gated read : World} {fresh : ChangeSet}
    (hgate : (Gate.ensure space).runOn deployment world = (.ok (), gated))
    (hfresh : (Preview.changesOf space).runOn deployment gated = (.ok fresh, read)) :
    Gate.outcome world.memory space = .ok () ∧
      (∃ changes, Ledger.policyChangesIn world.memory.policies space target = .ok changes) ∧
      plan submitted fresh = planned world.memory space target submitted ∧
      world.After [] none read := by
  obtain ⟨houtcome, hgated⟩ := (Gate.performs_ensure h hworld space).of_ok hgate
  have hmemory := hgated.memory_eq
  have hchanges := Preview.performs_changesOf h (hworld.after hgated) hledger hfixed
    (fun type => by rw [hmemory]; exact horderly type) htarget
  rw [hmemory] at hchanges
  obtain ⟨hcompared, hread⟩ := hchanges.of_ok hfresh
  cases hraw : Ledger.comparedIn world.memory space target with
  | error fault => rw [hraw] at hcompared; cases hcompared
  | ok raw =>
    rw [hraw] at hcompared
    cases hcompared
    exact ⟨houtcome, (Ledger.of_comparedIn hraw).1, plan_of_compared horderly htags hraw submitted,
      hgated.trans hread⟩

/-- A promotion that is completed has found the contents ready, and has made the calls of its
script. -/
theorem after_promote {report : Report} {later : World}
    (hrun : (promote space submitted).runOn deployment world = (.ok report, later)) :
    ∃ source current time, Ready world.memory space target submitted source current ∧
      world.After (plannedScript world.memory space target submitted source current time) none
        later := by
  have hsuccessor : (Work.ofExcept (Preview.successor space)).runOn deployment world =
      (.ok target, world) := by
    rw [Work.runOn_ofExcept, Preview.successor, htarget]
  rw [promote, Work.runOn_bind, hsuccessor] at hrun
  obtain ⟨⟨⟩, gated, hgate, hrun⟩ := Work.runOn_bind_ok hrun
  obtain ⟨fresh, read, hfresh, hrun⟩ := Work.runOn_bind_ok hrun
  obtain ⟨houtcome, hcompared, hplan, hread⟩ :=
    after_ledger h hworld hledger hfixed horderly htags htarget submitted hgate hfresh
  have hmemory := hread.memory_eq
  rw [hplan] at hrun
  obtain ⟨source, current, time, hupdate, hstored, hhas, hafter⟩ :=
    after_execute h (hworld.after hread) (fun type => by rw [hmemory]) horderly
      (fun type => Ledger.planIn_regular ..) hrun
  rw [hmemory] at hstored
  exact ⟨source, current, time, ⟨houtcome, hcompared, hhas, hupdate, hstored⟩,
    hread.trans hafter⟩

/-- Where the contents are ready, a promotion performs its script. -/
theorem Ready.performs {source current : Option PolicyRecord}
    (hready : Ready world.memory space target submitted source current) :
    ∃ time, (promote space submitted).Performs deployment world
      (plannedScript world.memory space target submitted source current time)
      (.ok (reportOf world.memory.entities (planned world.memory space target submitted) space
        target source current)) := by
  have hsuccessor : Preview.successor space = .ok target := by rw [Preview.successor, htarget]
  rw [promote, hsuccessor]
  -- the gate and the ledger read, so that the commit finds the contents that the plan is made from
  refine Work.Performs.read_bind_exists (Work.performs_ofExcept (.ok target)) fun start hstart => ?_
  have hensure := Gate.performs_ensure h (hworld.after hstart) space
  rw [hstart.memory_eq, hready.gate] at hensure
  refine hensure.read_bind_exists fun gated hgated => ?_
  have hgatedMemory : gated.memory = world.memory := by
    rw [hgated.memory_eq, hstart.memory_eq]
  have hgated := (hworld.after hstart).after hgated
  obtain ⟨changes, hcompared⟩ := hready.compared
  have hraw : Ledger.comparedIn world.memory space target = .ok (ChangeSet.build changes fun type =>
      Ledger.entityChangesIn (world.memory.entities type) space target) := by
    rw [Ledger.comparedIn, hcompared]
    rfl
  have hchanges := Preview.performs_changesOf h hgated hledger hfixed
    (fun type => by rw [hgatedMemory]; exact horderly type) htarget
  rw [hgatedMemory, hraw] at hchanges
  refine hchanges.read_bind_exists fun read hread => ?_
  have hmemory : read.memory = world.memory := by rw [hread.memory_eq, hgatedMemory]
  rw [plan_of_compared horderly htags hraw, ← hready.update]
  exact performs_execute h (hgated.after hread) (fun type => by rw [hmemory]) horderly
    (fun type => Ledger.planIn_regular ..) hready.sources (by rw [hmemory]; exact hready.policies)

end

end Commit

/-! ### Promoting what was shown -/

namespace Commit

/-- The script that the contents ask for, with the policy saved at a point in time. -/
def askedScript (memory : Memory) (space target : Space) (source current : Option PolicyRecord)
    (time : Instant) : List Call :=
  script memory.entities space target
    (fun type => Ledger.writesIn (memory.entities type) space target)
    (fun type => Ledger.removalsIn (memory.entities type) space target)
    (policyScript target (Ledger.differing source current) current time)

/-- The report of a commit that has made all of the writes that the contents ask for. -/
def askedReport (memory : Memory) (space target : Space) (source current : Option PolicyRecord) :
    Report :=
  reportOf memory.entities
    (fun type => Ledger.entityChangesIn (memory.entities type) space target) space target
    (Ledger.differing source current) current

/-- What is shown is planned as it is shown. -/
theorem planned_shown (hmemory : memory.Orderly) (source current : Option PolicyRecord)
    (type : EntityType) :
    planned memory space target (Ledger.shown memory space target source current) type =
      Ledger.entityChangesIn (memory.entities type) space target := by
  rw [planned, Ledger.shown_of hmemory]
  exact (Change.reconciled_self_iff
    (Ledger.entityChangesIn_regular (hmemory.entities type) _ _)).mpr
      (Ledger.stripTag_of_mem_entityChangesIn (hmemory.entities type) (hmemory.untagged type))

/-- A promotion of what was shown performs the script that the contents ask for. -/
theorem performs_promote (h : deployment.Standard) (hworld : world.Standing)
    (hledger : deployment.settings.changeLedger = .contentHash)
    (hfixed : deployment.fixedChanges = none) (hmemory : world.memory.Orderly)
    (htarget : space.target? = some target) {source current : Option PolicyRecord}
    (hsource : Policies.stored? world.memory.policies space = .ok source)
    (hcurrent : Policies.stored? world.memory.policies target = .ok current)
    (hgate : Gate.outcome world.memory space = .ok ()) :
    ∃ time, (promote space (Ledger.shown world.memory space target source current)).Performs
      deployment world (askedScript world.memory space target source current time)
      (.ok (askedReport world.memory space target source current)) := by
  have hplan : planned world.memory space target
      (Ledger.shown world.memory space target source current) =
        fun type => Ledger.entityChangesIn (world.memory.entities type) space target :=
    funext fun type => planned_shown hmemory source current type
  have hready : Ready world.memory space target
      (Ledger.shown world.memory space target source current) (Ledger.differing source current)
        current := by
    constructor
    · exact hgate
    · exact ⟨_, Ledger.policyChangesIn_eq hsource hcurrent⟩
    · rw [hplan]
      exact fun type id => Ledger.has_of_mem_writesIn (hmemory.entities type)
    · exact (Ledger.hasPolicyUpdate_shown hmemory hsource).symm
    · intro record hrecord
      obtain ⟨hfound, -⟩ := Option.filter_eq_some_iff.mp hrecord
      exact ⟨by rw [hsource, hfound], hcurrent⟩
  obtain ⟨time, hperforms⟩ := hready.performs h hworld hledger hfixed hmemory.entities
    hmemory.untagged htarget
  rw [plannedScript, hplan] at hperforms
  exact ⟨time, hperforms⟩

/-- A promotion that the gate stops writes nothing. -/
theorem performs_promote_stopped (h : deployment.Standard) (hworld : world.Standing)
    (htarget : space.target? = some target) {fault : Fault}
    (hgate : Gate.outcome world.memory space = .error fault) (submitted : ChangeSet) :
    (promote space submitted).Performs deployment world [] (.error fault) := by
  have hsuccessor : Preview.successor space = .ok target := by rw [Preview.successor, htarget]
  rw [promote, hsuccessor]
  refine Work.Performs.read_bind (Work.performs_ofExcept (.ok target)) fun start hstart => ?_
  have hensure := Gate.performs_ensure h (hworld.after hstart) space
  rw [hstart.memory_eq, hgate] at hensure
  exact hensure.bind_error

/-- A preview of a space with a policy, and the promotion of what it shows, write nothing or what
the contents ask for. -/
theorem performs_preview_promote (h : deployment.Standard) (hworld : world.Standing)
    (hledger : deployment.settings.changeLedger = .contentHash)
    (hfixed : deployment.fixedChanges = none) (hmemory : world.memory.Orderly)
    (htarget : space.target? = some target)
    (hpolicy : (world.memory.policies.policyOf? space).isSome = true) :
    ∃ script outcome,
      (Preview.changesOf space >>= promote space).Performs deployment world script outcome ∧
      (script = [] ∨ ∃ source current time,
        Policies.stored? world.memory.policies space = .ok (some source) ∧
        Policies.stored? world.memory.policies target = .ok current ∧
        script = askedScript world.memory space target (some source) current time) := by
  have hshown := Preview.performs_changesOf h hworld hledger hfixed hmemory.entities htarget
  have hunreadable : ∀ fault, Ledger.policyChangesIn world.memory.policies space target =
      .error fault → (Preview.changesOf space >>= promote space).Performs deployment world []
        (.error fault) := by
    intro fault hchanges
    rw [Ledger.comparedIn, hchanges] at hshown
    exact hshown.bind_error
  -- the preview needs both policies, and the promotion the leave of the gate
  cases hsource : Policies.stored? world.memory.policies space with
  | error fault =>
    refine ⟨[], _, hunreadable fault ?_, .inl rfl⟩
    rw [Ledger.policyChangesIn, hsource]
    rfl
  | ok found =>
    cases found with
    | none =>
      rw [Documents.stored?_eq_none hsource] at hpolicy
      cases hpolicy
    | some source =>
      cases hcurrent : Policies.stored? world.memory.policies target with
      | error fault =>
        refine ⟨[], _, hunreadable fault ?_, .inl rfl⟩
        rw [Ledger.policyChangesIn, hsource]
        show (do
          let current ← Policies.stored? world.memory.policies target
          pure (Ledger.policyChange source current)) = _
        rw [hcurrent]
        rfl
      | ok current =>
        rw [Ledger.comparedIn_eq hsource hcurrent] at hshown
        cases hgate : Gate.outcome world.memory space with
        | error fault =>
          have hstopped : (Preview.changesOf space >>= promote space).Performs deployment world []
              (.error fault) := by
            refine hshown.read_bind fun later hlater => ?_
            exact performs_promote_stopped h (hworld.after hlater) htarget
              (by rwa [hlater.memory_eq]) _
          exact ⟨[], _, hstopped, .inl rfl⟩
        | ok =>
          have hpromote : ∃ time, (Preview.changesOf space >>= promote space).Performs deployment
              world (askedScript world.memory space target (some source) current time)
              (.ok (askedReport world.memory space target (some source) current)) := by
            refine hshown.read_bind_exists fun later hlater => ?_
            have hmemory' := hlater.memory_eq
            have hperforms := performs_promote h (hworld.after hlater) hledger hfixed
              (by rwa [hmemory']) htarget (by rwa [hmemory']) (by rwa [hmemory'])
              (by rwa [hmemory'])
            rwa [hmemory'] at hperforms
          obtain ⟨time, hpromote⟩ := hpromote
          exact ⟨_, _, hpromote, .inr ⟨source, current, time, rfl, rfl, rfl⟩⟩

end Commit

end Lifecycle
