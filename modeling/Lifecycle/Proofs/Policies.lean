import Lifecycle.Promotion.Gate
import Lifecycle.Proofs.Committing

/-!
# Steps about policies

The policy of a space is read from the first document of the policies index that belongs to the
space (`Policies.performs_get?`), and the gate asks besides whether the space has the root decoder
(`Gate.performs_ensure`); neither writes anything.

Promoting a policy writes it once, or not at all when the successor has the same content
(`Commit.performs_promotePolicy`). What is written bears the time of the write, so that its script
is known but for a point in time.
-/

namespace Lifecycle

variable {deployment : Deployment} {world : World} {bare : Prop}

/-! ### Reading a policy -/

namespace Policies

/-- The policy of a space by the documents of the policies index. -/
def stored? (docs : Documents) (space : Space) : Except Fault (Option PolicyRecord) :=
  match docs.find? fun entry => Scope.belongs space entry.2 with
  | none => .ok none
  | some entry => (toRecord space ⟨entry.1, entry.2⟩).map some

/-- Under the default mapping the policy of a space is the first document that belongs to it. -/
theorem found?_eq {memory : Memory} (h : memory.Mapped) (space : Space) :
    found? memory space = stored? memory.policies space := by
  simp only [found?, stored?, Memory.carries_eq (h.mapping (by decide : ".cti-policies" ∈ _))]
  cases memory.policies.find? fun entry => Scope.belongs space entry.2 <;> rfl

theorem performs_get? (h : deployment.Standard) (hworld : world.Standing) (space : Space) :
    (get? space).Performs deployment world [] (stored? world.memory.policies space) := by
  rw [← found?_eq hworld.mapped]
  exact performs_found h hworld.probed space

/-! ### Saving a policy -/

/-- Where a policy is saved, and the earlier body that it is saved over. -/
def placeOf (space : Space) (document : Policy) (current shape : Option PolicyRecord) :
    String × Table Json :=
  match current with
  | some record => (record.docId, record.source)
  | none => (renderedId space (newId document), (shape.map PolicyRecord.source).getD [])

/-- The document that a policy is saved as at a point in time. -/
def stamped (document : Policy) (time : Instant) : Policy :=
  { document with modified := some time.toText }

/-- The call that saves a policy at a point in time. -/
def saveCall (space : Space) (document : Policy) (current shape : Option PolicyRecord)
    (time : Instant) : Call :=
  .upsert ".cti-policies" (placeOf space document current shape).1
    (savedBody space (stamped document time) (placeOf space document current shape).2)

theorem placeFor_eq (h : deployment.Standard) (space : Space) (document : Policy)
    (current shape : Option PolicyRecord) :
    placeFor deployment.settings space document current shape =
      .ok (placeOf space document current shape) := by
  cases current with
  | some record => rfl
  | none =>
    rw [placeFor, h.documentId, documentId_eq]
    rfl

theorem performs_now : Work.now.Performs deployment world [] (.ok world.clock) bare :=
  .completed { world with clock := world.clock + 1 } rfl
    ⟨rfl, by simp [World.written], id, fun _ => id⟩

/-- The record of a policy that was saved at a point in time. -/
def savedRecord (space : Space) (document : Policy) (current shape : Option PolicyRecord)
    (time : Instant) : PolicyRecord :=
  { docId := (placeOf space document current shape).1
    space
    document := stamped document time
    source := savedBody space (stamped document time) (placeOf space document current shape).2 }

/-- Saving a policy makes one call. -/
theorem performs_save (h : deployment.Standard) (space : Space) (document : Policy)
    (current shape : Option PolicyRecord) :
    ∃ time, (save space document current shape).Performs deployment world
      [saveCall space document current shape time]
      (.ok (savedRecord space document current shape time)) bare := by
  refine Work.performs_settings.read_bind_exists fun settled _ => ⟨settled.clock, ?_⟩
  refine performs_now.read_bind fun later _ => ?_
  have hplace : placeOf space (stamped document settled.clock) current shape =
      placeOf space document current shape := by
    cases current <;> rfl
  have hplaceFor := placeFor_eq h space (stamped document settled.clock) current shape
  rw [hplace] at hplaceFor
  unfold stamped at hplaceFor
  dsimp only at hplaceFor ⊢
  rw [hplaceFor, h.policiesIndex]
  refine (Work.performs_ofExcept (.ok _)).read_bind fun last _ => ?_
  exact (Store.performs_upsert h.backend _ _ _).bind fun _ _ => Work.performs_pure _

end Policies

/-! ### The gate -/

namespace Gate

/-- Whether a space has a decoder, by the documents of the decoders index. -/
def hasDecoder (docs : Documents) (space : Space) (decoder : String) : Bool :=
  docs.any fun entry => Scope.belongs space entry.2 && Scope.hasIdAmong [decoder] entry.2

/-- Whether a policy names a root decoder that its space has. -/
def satisfiedBy (docs : Documents) (space : Space) : Option PolicyRecord → Bool
  | none => false
  | some record =>
    !record.document.rootDecoder.isEmpty && hasDecoder docs space record.document.rootDecoder

/-- What the gate says of a space, by the contents of the store. -/
def outcome (memory : Memory) (space : Space) : Except Fault Unit :=
  match Policies.stored? memory.policies space with
  | .error fault => .error fault
  | .ok policy =>
    if space.allows .defineRootDecoder && !satisfiedBy (memory.entities .decoders) space policy
    then .error (.decoderRequired space.name)
    else .ok ()

/-- A decoder is found where the query that asks for its id finds what belongs to the space and has
the id. -/
theorem performs_decoderExists_of (h : deployment.Standard) (hworld : world.Probed) {space : Space}
    {decoder : String}
    (hasked : ∀ entry ∈ world.memory.entities .decoders,
      world.memory.asked ".cti-decoders" space [decoder] entry.2 =
        (Scope.belongs space entry.2 && Scope.hasIdAmong [decoder] entry.2)) :
    (decoderExists space decoder).Performs deployment world []
      (.ok (hasDecoder (world.memory.entities .decoders) space decoder)) := by
  have hindex : ".cti-decoders" ∈ contentIndexes := by decide
  have hname : deployment.settings.decodersIndex = ".cti-decoders" := h.indexFor .decoders
  rw [decoderExists]
  refine Resolver.performs_scoped h hworld hname hindex space (Scope.apply_terms space [decoder])
    fun fields later hfields hmemory => ?_
  rw [hname]
  have hfound : later.memory.found ".cti-decoders" (Scope.withIds space [decoder] fields) =
      .ok ((world.memory.entities .decoders).filter fun entry =>
        Scope.belongs space entry.2 && Scope.hasIdAmong [decoder] entry.2) := by
    rw [hmemory, Memory.found_withIds hfields]
    exact congrArg Except.ok (List.filter_congr hasked)
  refine (Store.performs_search_first h hfound Content.projected_id).read_bind fun last _ => ?_
  have hany : hasDecoder (world.memory.entities .decoders) space decoder =
      !((((world.memory.entities .decoders).filter fun entry => Scope.belongs space entry.2 &&
        Scope.hasIdAmong [decoder] entry.2).take 1).map
          (Store.toHit Content.idView)).isEmpty := by
    cases hfound : (world.memory.entities .decoders).filter fun entry =>
        Scope.belongs space entry.2 && Scope.hasIdAmong [decoder] entry.2 with
    | nil => exact List.any_eq_false.mpr (List.filter_eq_nil_iff.mp hfound)
    | cons entry rest =>
      have hmem := List.mem_filter.mp (hfound ▸ List.mem_cons_self : entry ∈ List.filter _ _)
      exact List.any_eq_true.mpr ⟨entry, hmem⟩
  rw [hany]
  exact Work.performs_pure _

theorem performs_decoderExists (h : deployment.Standard) (hworld : world.Standing)
    (space : Space) (decoder : String) :
    (decoderExists space decoder).Performs deployment world []
      (.ok (hasDecoder (world.memory.entities .decoders) space decoder)) :=
  performs_decoderExists_of h hworld.probed fun entry _ =>
    Memory.asked_eq (hworld.mapped.mapping (by decide)) space [decoder] entry.2

/-- The check reads the policy of a space, and looks for the root decoder that it names. -/
theorem performs_check_of {docs : Documents} {policy : Except Fault (Option PolicyRecord)}
    {space : Space} (hget : (Policies.get? space).Performs deployment world [] policy)
    (hexists : ∀ later, world.After [] none later → ∀ decoder,
      (decoderExists space decoder).Performs deployment later []
        (.ok (hasDecoder docs space decoder))) :
    (check space).Performs deployment world [] (policy.map fun policy =>
      ⟨space.allows .defineRootDecoder, satisfiedBy docs space policy⟩) := by
  rw [check]
  cases policy with
  | error fault => exact hget.bind_error
  | ok policy =>
    refine hget.read_bind fun later hlater => ?_
    -- no decoder is looked for unless a policy names one
    have hsatisfied : (isSatisfied space policy).Performs deployment later []
        (.ok (satisfiedBy docs space policy)) := by
      cases policy with
      | none => exact Work.performs_pure false
      | some record =>
        rw [isSatisfied, satisfiedBy]
        cases record.document.rootDecoder.isEmpty with
        | true => exact Work.performs_pure false
        | false => exact hexists later hlater _
    exact hsatisfied.read_bind fun _ _ => Work.performs_pure _

/-- The gate says what its check comes to. -/
theorem performs_ensure_of {space : Space}
    (hcheck : (check space).Performs deployment world []
      ((Policies.stored? world.memory.policies space).map fun policy =>
        ⟨space.allows .defineRootDecoder,
          satisfiedBy (world.memory.entities .decoders) space policy⟩)) :
    (ensure space).Performs deployment world [] (outcome world.memory space) := by
  rw [ensure, outcome]
  cases hstored : Policies.stored? world.memory.policies space with
  | error fault =>
    rw [hstored] at hcheck
    exact hcheck.bind_error
  | ok policy =>
    rw [hstored] at hcheck
    refine hcheck.read_bind fun later _ => ?_
    rw [Requirement.blocks]
    dsimp only
    split
    · exact Work.performs_throw _
    · exact Work.performs_pure ()

/-- The gate reads the policy of a space, and asks for its root decoder. -/
theorem performs_ensure (h : deployment.Standard) (hworld : world.Standing) (space : Space) :
    (ensure space).Performs deployment world [] (outcome world.memory space) := by
  refine performs_ensure_of (performs_check_of (Policies.performs_get? h hworld space)
    fun later hlater decoder => ?_)
  rw [← hlater.memory_eq]
  exact performs_decoderExists h (hworld.after hlater) space decoder

end Gate

/-! ### Promoting the policy -/

namespace Commit

open Policies

/-- Whether the successor of a space has the content of its policy. -/
def samePolicy (source : PolicyRecord) (current : Option PolicyRecord) : Bool :=
  current.any fun record => record.document.contentHash == source.document.contentHash

/-- The calls that promote a policy at a point in time. -/
def policyCalls (target : Space) (source : PolicyRecord) (current : Option PolicyRecord)
    (time : Instant) : List Call :=
  if samePolicy source current then []
  else [saveCall target (promotedDocument source.document current) current (some source) time]

theorem index_of_mem_policyCalls {target : Space} {source : PolicyRecord}
    {current : Option PolicyRecord} {time : Instant} {call : Call}
    (h : call ∈ policyCalls target source current time) : call.index = ".cti-policies" := by
  rw [policyCalls] at h
  split at h
  · cases h
  · rw [List.mem_singleton.mp h]
    rfl

/-- Promoting a policy saves it unless the successor has its content. -/
theorem performs_promotePolicy_found (h : deployment.Standard) (hworld : world.Probed)
    {space target : Space} {source : PolicyRecord} {current : Option PolicyRecord}
    (hsource : found? world.memory space = .ok (some source))
    (hcurrent : found? world.memory target = .ok current) :
    ∃ time, (promotePolicy space target).Performs deployment world
      (policyCalls target source current time) (.ok (!samePolicy source current)) bare := by
  have hget : (get? space).Performs deployment world [] _ bare := performs_found h hworld space
  rw [hsource] at hget
  rw [promotePolicy]
  refine hget.read_bind_exists fun later hlater => ?_
  have hget' : (get? target).Performs deployment later [] _ bare :=
    performs_found h (hlater.probed hworld) target
  rw [hlater.memory_eq, hcurrent] at hget'
  refine hget'.read_bind_exists fun last hlast => ?_
  unfold policyCalls samePolicy
  dsimp only
  by_cases hsame : (current.any fun record =>
      record.document.contentHash == source.document.contentHash) = true
  · rw [if_pos hsame, hsame]
    exact ⟨0, Work.performs_pure _⟩
  · rw [if_neg hsame]
    rw [Bool.not_eq_true] at hsame
    rw [hsame]
    have hsave : ∃ time, (save target (promotedDocument source.document current) current
        (some source)).Performs deployment last _ _ bare := performs_save h _ _ _ _
    obtain ⟨time, hsave⟩ := hsave
    exact ⟨time, hsave.bind fun _ _ => Work.performs_pure true⟩

theorem performs_promotePolicy (h : deployment.Standard) (hworld : world.Standing)
    {space target : Space} {source : PolicyRecord} {current : Option PolicyRecord}
    (hsource : stored? world.memory.policies space = .ok (some source))
    (hcurrent : stored? world.memory.policies target = .ok current) :
    ∃ time, (promotePolicy space target).Performs deployment world
      (policyCalls target source current time) (.ok (!samePolicy source current)) :=
  performs_promotePolicy_found h hworld.probed (by rw [found?_eq hworld.mapped, hsource])
    (by rw [found?_eq hworld.mapped, hcurrent])

/-- What a commit does about the policy. -/
def policyWork (withPolicy : Bool) (space target : Space) : Work Bool :=
  if withPolicy then step policyStep (promotePolicy space target) else pure false

/-- A commit in its three parts. -/
theorem execute_eq (plan : EntityType → List Change) (withPolicy : Bool) (space target : Space) :
    execute plan withPolicy space target = (do
      let applied ← writeAll plan space target EntityType.writeOrder []
      let policyUpdated ← policyWork withPolicy space target
      let applied ← removeAll plan target EntityType.writeOrder.reverse applied
      pure { space, target, applied, policyUpdated }) := by
  cases withPolicy <;> rfl

/-- A promotion of the policy that is completed has found the policy and has made its calls. -/
theorem after_promotePolicy_found (h : deployment.Standard) (hworld : world.Probed)
    {space target : Space} {updated : Bool} {later : World}
    (hrun : (promotePolicy space target).runOn deployment world = (.ok updated, later)) :
    ∃ source current time, found? world.memory space = .ok (some source) ∧
      found? world.memory target = .ok current ∧ updated = !samePolicy source current ∧
        world.After (policyCalls target source current time) none later := by
  have hget : (get? space).Performs deployment world [] _ := performs_found h hworld space
  cases hsource : found? world.memory space with
  | error fault =>
    rw [hsource] at hget
    exact absurd (hget.bind_error.of_ok hrun).1 (by simp)
  | ok found =>
    rw [hsource] at hget
    cases found with
    | none =>
      have hstale : (promotePolicy space target).Performs deployment world []
          (.error (.stale policyStep [space.name])) :=
        hget.read_bind fun _ _ => Work.performs_throw _
      exact absurd (hstale.of_ok hrun).1 (by simp)
    | some source =>
      cases hcurrent : found? world.memory target with
      | error fault =>
        have hfails : (promotePolicy space target).Performs deployment world [] (.error fault) := by
          refine hget.read_bind fun later hlater => ?_
          have hget' : (get? target).Performs deployment later [] _ :=
            performs_found h (hlater.probed hworld) target
          rw [hlater.memory_eq, hcurrent] at hget'
          exact hget'.bind_error
        exact absurd (hfails.of_ok hrun).1 (by simp)
      | ok current =>
        have hpromote : ∃ time, (promotePolicy space target).Performs deployment world _ _ :=
          performs_promotePolicy_found h hworld hsource hcurrent
        obtain ⟨time, hperforms⟩ := hpromote
        obtain ⟨hupdated, hafter⟩ := hperforms.of_ok hrun
        exact ⟨source, current, time, rfl, rfl, (Except.ok.inj hupdated).symm, hafter⟩

theorem after_promotePolicy (h : deployment.Standard) (hworld : world.Standing)
    {space target : Space} {updated : Bool} {later : World}
    (hrun : (promotePolicy space target).runOn deployment world = (.ok updated, later)) :
    ∃ source current time, stored? world.memory.policies space = .ok (some source) ∧
      stored? world.memory.policies target = .ok current ∧
        world.After (policyCalls target source current time) none later := by
  obtain ⟨source, current, time, hsource, hcurrent, -, hafter⟩ :=
    after_promotePolicy_found h hworld.probed hrun
  rw [found?_eq hworld.mapped] at hsource hcurrent
  exact ⟨source, current, time, hsource, hcurrent, hafter⟩

end Commit

end Lifecycle
