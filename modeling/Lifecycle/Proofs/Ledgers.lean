import Lifecycle.Promotion.Preview
import Lifecycle.Proofs.Change
import Lifecycle.Proofs.Policies

/-!
# What the ledgers say

Reading a ledger writes nothing, whichever one a deployment has (`performs_changes`), and what a
preview makes of it is in normal form (`Preview.after_changesOf`). The ledger that compares contents
says what the documents of the two spaces say: the changes of a type are the difference of the
content hashes of its copies, and the policy has a change if its content is not that of the
successor's (`performs_compared`).
-/

namespace Lifecycle

variable {deployment : Deployment} {world : World} {space target : Space}

namespace Ledger

/-! ### Comparing contents -/

/-- The changes of the entities of a type by their documents. -/
def entityChangesIn (docs : Documents) (space target : Space) : List Change :=
  Change.between (hashesIn docs space) (hashesIn docs target)

/-- The changes of the policy by the documents of the policies index. -/
def policyChangesIn (docs : Documents) (space target : Space) : Except Fault (List Change) := do
  match ← Policies.stored? docs space with
  | none => pure []
  | some source => do
    let current ← Policies.stored? docs target
    pure (policyChange source current)

/-- The changes by comparing contents, by the documents of all indexes. -/
def comparedIn (memory : Memory) (space target : Space) : Except Fault ChangeSet :=
  (policyChangesIn memory.policies space target).map fun policy =>
    ChangeSet.build policy fun type => entityChangesIn (memory.entities type) space target

/-- The changes of the policy by what the policies of spaces are read as. -/
def policyChangesBy (policies : Space → Except Fault (Option PolicyRecord))
    (space target : Space) : Except Fault (List Change) := do
  match ← policies space with
  | none => pure []
  | some source => do
    let current ← policies target
    pure (policyChange source current)

/-- The policies are compared as they are read. -/
theorem performs_policyChanges_of {policies : Space → Except Fault (Option PolicyRecord)}
    (hget : ∀ later, world.After [] none later → ∀ space,
      (Policies.get? space).Performs deployment later [] (policies space)) :
    (policyChanges space target).Performs deployment world []
      (policyChangesBy policies space target) := by
  have hsource := hget world (.refl world) space
  rw [policyChanges, policyChangesBy]
  cases hfound : policies space with
  | error fault =>
    rw [hfound] at hsource
    exact hsource.bind_error
  | ok found =>
    rw [hfound] at hsource
    cases found with
    | none => exact hsource.read_bind fun _ _ => Work.performs_pure []
    | some source =>
      refine hsource.read_bind fun later hlater => ?_
      have hcurrent := hget later hlater target
      show Work.Performs (do
        let successor ← Policies.get? target
        pure (policyChange source successor)) deployment later []
        (policies target >>= fun current => pure (policyChange source current))
      cases hfound : policies target with
      | error fault =>
        rw [hfound] at hcurrent
        exact hcurrent.bind_error
      | ok current =>
        rw [hfound] at hcurrent
        exact hcurrent.read_bind fun _ _ => Work.performs_pure _

/-- The entities of a type are compared by their hashes. -/
theorem performs_entityChanges_of {type : EntityType} {table : Space → Table String}
    (hhashes : ∀ later, world.After [] none later → ∀ space,
      (hashes type space).Performs deployment later [] (.ok (table space))) :
    (entityChanges type space target).Performs deployment world []
      (.ok (Change.between (table space) (table target))) := by
  rw [entityChanges]
  refine (hhashes world (.refl world) space).read_bind fun later hlater => ?_
  exact (hhashes later hlater target).read_bind fun _ _ => Work.performs_pure _

/-- The ledger that compares contents compares the policies, and the hashes of each type. -/
theorem performs_compared_of {policy : Except Fault (List Change)}
    {tables : EntityType → Space → Table String}
    (hpolicy : (policyChanges space target).Performs deployment world [] policy)
    (hhashes : ∀ later, world.After [] none later → ∀ type space,
      (hashes type space).Performs deployment later [] (.ok (tables type space))) :
    (compared space target).Performs deployment world []
      (policy.map fun policy => ChangeSet.build policy fun type =>
        Change.between (tables type space) (tables type target)) := by
  have hentities : ∀ later, world.After [] none later → ∀ type,
      (entityChanges type space target).Performs deployment later []
        (.ok (Change.between (tables type space) (tables type target))) :=
    fun later hlater type => performs_entityChanges_of fun last hlast space =>
      hhashes last (hlater.trans hlast) type space
  rw [compared]
  cases policy with
  | error fault => exact hpolicy.bind_error
  | ok policy =>
    -- the contents are the same at each of the five readings
    refine hpolicy.read_bind fun first hfirst => ?_
    refine (hentities first hfirst .integrations).read_bind fun second hsecond => ?_
    have hsecond := hfirst.trans hsecond
    refine (hentities second hsecond .decoders).read_bind fun third hthird => ?_
    have hthird := hsecond.trans hthird
    refine (hentities third hthird .kvdbs).read_bind fun fourth hfourth => ?_
    have hfourth := hthird.trans hfourth
    exact (hentities fourth hfourth .rules).read_bind fun _ _ => Work.performs_pure _

/-- The ledger that compares contents says what the documents say. -/
theorem performs_compared (h : deployment.Standard) (hworld : world.Standing)
    (horderly : ∀ type, (world.memory.entities type).Orderly) (space target : Space) :
    (compared space target).Performs deployment world []
      (comparedIn world.memory space target) := by
  have hpolicy : (policyChanges space target).Performs deployment world []
      (policyChangesIn world.memory.policies space target) := by
    refine performs_policyChanges_of fun later hlater space => ?_
    have hget := Policies.performs_get? h (hworld.after hlater) space
    rwa [hlater.memory_eq] at hget
  refine performs_compared_of hpolicy fun later hlater type space => ?_
  exact performs_hashes h (hworld.after hlater) (by rw [hlater.memory_eq]) (horderly type) space

/-! ### All ledgers -/

theorem performs_exchange (request : Exchange) :
    (Work.exchange request).Performs deployment world [] (.ok (Reply.next world.replies).1) :=
  .completed (world.exchanged request) (Work.runOn_exchange request)
    ⟨rfl, by simp [World.written, World.exchanged], id, fun _ => id⟩

/-- The content manager is asked once, and its reply is the answer. -/
theorem performs_told (space : Space) :
    (told space).Performs deployment world [] (replyChanges (Reply.next world.replies).1) := by
  rw [told]
  refine Work.Performs.behind_refl rfl ?_
  exact (performs_exchange _).read_bind fun _ _ => Work.performs_ofExcept _

/-- The ledger of a deployment is read by its settings. -/
theorem performs_changes_of {outcome : Except Fault ChangeSet}
    (h : (match deployment.fixedChanges, deployment.settings.changeLedger with
      | some value, _ =>
        Work.ofExcept ((ChangeSet.check .notModel value).orMisfit "PromotionChangeSet")
      | none, .contentHash => compared space target
      | none, .contentManager => told space : Work ChangeSet).Performs deployment world []
        outcome) :
    (changes space target).Performs deployment world [] outcome :=
  Work.Performs.behind_refl rfl h

end Ledger

namespace Preview

/-- The changes of a preview that compares contents are the normal form of what is compared. -/
theorem performs_changesOf_of {outcome : Except Fault ChangeSet}
    (hledger : deployment.settings.changeLedger = .contentHash)
    (hfixed : deployment.fixedChanges = none) (htarget : space.target? = some target)
    (hcompared : (Ledger.compared space target).Performs deployment world [] outcome) :
    (changesOf space).Performs deployment world [] (outcome.map ChangeSet.normalised) := by
  have hsuccessor : successor space = .ok target := by rw [successor, htarget]
  have hchanges : (Ledger.changes space target).Performs deployment world [] outcome := by
    apply Ledger.performs_changes_of
    rw [hfixed, hledger]
    exact hcompared
  rw [changesOf, hsuccessor]
  refine Work.Performs.behind_refl rfl ?_
  cases outcome with
  | error fault => exact hchanges.bind_error
  | ok raw => exact hchanges.read_bind fun _ _ => Work.performs_pure _

/-- The changes of a preview that compares contents are the normal form of what the documents
say. -/
theorem performs_changesOf (h : deployment.Standard) (hworld : world.Standing)
    (hledger : deployment.settings.changeLedger = .contentHash)
    (hfixed : deployment.fixedChanges = none)
    (horderly : ∀ type, (world.memory.entities type).Orderly)
    (htarget : space.target? = some target) :
    (changesOf space).Performs deployment world []
      ((Ledger.comparedIn world.memory space target).map ChangeSet.normalised) :=
  performs_changesOf_of hledger hfixed htarget
    (Ledger.performs_compared h hworld horderly space target)

end Preview

end Lifecycle
