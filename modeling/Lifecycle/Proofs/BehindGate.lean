import Lifecycle.Proofs.Names

/-!
# What runs behind the gate

Nothing but the gate says that a root decoder is required. Behind the gate a preview reads the
ledger and the names of what is changed, and these fail on documents and replies that cannot be
read; a promotion ends in the fault of a step or in a stale change
(`Preview.ungated_ofSpace`, `Commit.ungated_execute`). The ledger may ask the network, whose reply
may be broken; that is a failure of the transport.
-/

namespace Lifecycle

variable {α β : Type} {deployment : Deployment} {world : World} {space target : Space}

/-! ### Faults that the gate does not raise -/

/-- Not a fault about a precondition, as the want of a root decoder is one. -/
def Fault.Ungated (fault : Fault) : Prop := fault.category ≠ .preconditionFailed

/-- What was kept about the space fields stems from probes, and no call is made to fail. -/
structure World.Calm (world : World) : Prop where
  probed : world.Probed
  rules : world.rules = []

theorem World.Calm.after (h : world.Calm) {later : World} {done : List Call} {failed : Option Call}
    (hlater : world.After done failed later) : later.Calm :=
  ⟨hlater.probed h.probed, hlater.rules h.rules⟩

namespace Work

/-- Work that leaves the world calm and does not end for want of a root decoder. -/
abbrev Ungated (work : Work α) (deployment : Deployment) : Prop :=
  work.Keeps deployment World.Calm (fun _ => True) Fault.Ungated

/-- Work that only reads, with an outcome that is known, ends in it. -/
theorem Performs.ungated {work : Work α} {outcome : Except Fault α}
    (h : work.Performs deployment world [] outcome) (hworld : world.Calm)
    (houtcome : Ends (fun _ => True) Fault.Ungated outcome) :
    (work.runOn deployment world).2.Calm ∧
      Ends (fun _ => True) Fault.Ungated (work.runOn deployment world).1 := by
  obtain ⟨later, hrun, hafter⟩ := h.run_eq hworld.rules
  rw [hrun]
  exact ⟨hworld.after hafter, houtcome⟩

/-- Work behind a run of other work that is known of one world only. -/
theorem Keeps.behind {holds : World → Prop} {value : β → Prop} {fault : Fault → Prop}
    {work : Work α} {next : α → Work β}
    (h : holds (work.runOn deployment world).2 ∧
      Ends (fun _ => True) fault (work.runOn deployment world).1)
    (hnext : ∀ found, (next found).Keeps deployment holds value fault) :
    holds ((work >>= next).runOn deployment world).2 ∧
      Ends value fault ((work >>= next).runOn deployment world).1 := by
  obtain ⟨hlater, hends⟩ := h
  rw [runOn_bind]
  rcases hrun : work.runOn deployment world with ⟨cause | found, later⟩
  · rw [hrun] at hlater hends
    exact ⟨hlater, hends⟩
  · rw [hrun] at hlater
    exact hnext found later hlater

theorem ends_behind {value : β → Prop} {fault : Fault → Prop} {work : Work α} {next : α → Work β}
    (h : Ends (fun _ => True) fault (work.runOn deployment world).1)
    (hnext : ∀ found, (next found).Keeps deployment (fun _ => True) value fault) :
    Ends value fault ((work >>= next).runOn deployment world).1 :=
  (Keeps.behind ⟨trivial, h⟩ hnext).2

end Work

open Work

theorem Content.ungated_documentFields (body : Table Json) :
    Ends (fun _ => True) Fault.Ungated (documentFields body) := by
  rw [documentFields]
  split
  · trivial
  · exact Category.noConfusion

/-! ### Ledgers -/

theorem Policies.ungated_toRecord (space : Space) (hit : Hit) :
    Ends (fun _ => True) Fault.Ungated (toRecord space hit) := by
  rw [toRecord]
  cases Policy.check (Content.documentValue hit.source) with
  | good document => trivial
  | bad details => exact Category.noConfusion

theorem Policies.ungated_get? (h : deployment.Standard) (space : Space) :
    (get? space).Ungated deployment := by
  intro world hworld
  have hget : (get? space).Performs deployment world [] (found? world.memory space) :=
    performs_found h hworld.probed space
  refine hget.ungated hworld ?_
  rw [found?]
  cases world.memory.policies.find? _ with
  | none => trivial
  | some entry =>
    exact (ungated_toRecord space ⟨entry.1, entry.2⟩).bind fun record _ => trivial

namespace Ledger

theorem ungated_hashes (h : deployment.Standard) (type : EntityType) (space : Space) :
    (hashes type space).Ungated deployment := by
  intro world hworld
  have hscan : (hashes type space).Performs deployment world [] _ :=
    performs_hashes_scan h hworld.probed type space
  refine hscan.ungated hworld (ends_foldlM (fun hit _ found _ => ?_) trivial)
  refine (Content.ungated_documentFields hit.source).bind fun fields _ => ?_
  split <;> trivial

theorem ungated_entityChanges (h : deployment.Standard) (type : EntityType)
    (space target : Space) : (entityChanges type space target).Ungated deployment := by
  rw [entityChanges]
  refine (ungated_hashes h type space).bind fun source _ => ?_
  exact (ungated_hashes h type target).bind fun successor _ => keeps_pure trivial

theorem ungated_compared (h : deployment.Standard) (space target : Space) :
    (compared space target).Ungated deployment := by
  have hpolicy : (policyChanges space target).Ungated deployment := by
    rw [policyChanges]
    refine (Policies.ungated_get? h space).bind fun found _ => ?_
    cases found with
    | none => exact keeps_pure trivial
    | some source =>
      exact (Policies.ungated_get? h target).bind fun successor _ => keeps_pure trivial
  rw [compared]
  refine hpolicy.bind fun policy _ => ?_
  refine (ungated_entityChanges h .integrations space target).bind fun integrations _ => ?_
  refine (ungated_entityChanges h .decoders space target).bind fun decoders _ => ?_
  refine (ungated_entityChanges h .kvdbs space target).bind fun kvdbs _ => ?_
  exact (ungated_entityChanges h .rules space target).bind fun rules _ => keeps_pure trivial

/-- A reply that cannot be read is a failure of the service, and so is a broken transport. -/
theorem ungated_replyChanges {reply : Reply}
    (hbroken : ∀ fault, reply = .broken fault → fault.Ungated) :
    Ends (fun _ => True) Fault.Ungated (replyChanges reply) := by
  cases reply with
  | broken fault =>
    rw [replyChanges]
    split
    · exact Category.noConfusion
    · exact hbroken fault rfl
  | answer status body =>
    rw [replyChanges]
    split
    · trivial
    · split
      · exact Category.noConfusion
      · cases Json.read body with
        | error fault => exact Category.noConfusion
        | ok answer =>
          show Ends _ _ (changesIn answer)
          rw [changesIn]
          split
          · trivial
          · exact Category.noConfusion


/-- Where no replies are left, the next one is a broken connection. -/
theorem ungated_next {replies : List Reply}
    (hreplies : ∀ fault, .broken fault ∈ replies → fault.Ungated) (fault : Fault)
    (hnext : (Reply.next replies).1 = .broken fault) : fault.Ungated := by
  cases replies with
  | nil =>
    cases hnext
    exact Category.noConfusion
  | cons reply rest =>
    obtain rfl : reply = .broken fault := hnext
    exact hreplies fault List.mem_cons_self

/-- The ledger of a deployment does not end for want of a root decoder, whatever it answers. -/
theorem ungated_changes (h : deployment.Standard) (hworld : world.Calm)
    (hreplies : ∀ fault, .broken fault ∈ world.replies → fault.Ungated)
    (space target : Space) :
    ((changes space target).runOn deployment world).2.Calm ∧
      Ends (fun _ => True) Fault.Ungated ((changes space target).runOn deployment world).1 := by
  rw [changes, runOn_bind, runOn_read]
  dsimp only
  cases deployment.fixedChanges with
  | some value =>
    refine keeps_ofExcept ?_ world hworld
    cases ChangeSet.check .notModel value with
    | good found => trivial
    | bad details => exact Category.noConfusion
  | none =>
    cases deployment.settings.changeLedger with
    | contentHash => exact ungated_compared h space target world hworld
    | contentManager =>
      exact (performs_told space).ungated hworld (ungated_replyChanges (ungated_next hreplies))

end Ledger

/-! ### Previews -/

namespace Preview

theorem ungated_namesIn (h : deployment.Standard) (type : EntityType) (ids : List String)
    (space : Space) : (namesIn type ids space).Ungated deployment := by
  intro world hworld
  have hscan : ∃ outcome, (namesIn type ids space).Performs deployment world [] outcome ∧
      Ends (fun _ => True) Fault.Ungated outcome := by
    refine ⟨((((world.memory.entities type).filter fun entry =>
      world.memory.asked (({} : ContentSettings).indexFor type) space ids entry.2).map
        (Store.toHit (Content.nameView type))).foldlM (addName type.titleKey) []), ?_, ?_⟩
    · exact Resolver.performs_scoped_scan h hworld.probed (h.indexFor type) (indexFor_mem type)
        space (Scope.apply_terms space ids)
        (fun _ hfields => Memory.found_withIds hfields space ids) (Content.projected_name type) []
        (addName type.titleKey)
    · refine ends_foldlM (fun hit _ found _ => ?_) trivial
      refine (Content.ungated_documentFields hit.source).bind fun fields _ => ?_
      split <;> trivial
  obtain ⟨outcome, hperforms, hends⟩ := hscan
  exact hperforms.ungated hworld hends

theorem ungated_namesFor (h : deployment.Standard) (type : EntityType) (changes : List Change)
    (space target : Space) : (namesFor type changes space target).Ungated deployment := by
  rw [namesFor]
  dsimp only
  split
  · exact keeps_pure trivial
  · refine (ungated_namesIn h type _ space).bind fun source _ => ?_
    exact (ungated_namesIn h type _ target).bind fun successor _ => keeps_pure trivial

variable (h : deployment.Standard) (hworld : world.Calm)
  (hreplies : ∀ fault, .broken fault ∈ world.replies → fault.Ungated)
  (htarget : space.target? = some target)

include h hworld hreplies htarget

theorem ungated_changesOf :
    ((changesOf space).runOn deployment world).2.Calm ∧
      Ends (fun _ => True) Fault.Ungated ((changesOf space).runOn deployment world).1 := by
  have hsuccessor : successor space = .ok target := by rw [successor, htarget]
  have hrun : (changesOf space).runOn deployment world = (Ledger.changes space target >>= fun raw =>
      pure raw.normalised).runOn deployment world := by
    rw [changesOf, hsuccessor]
    rfl
  rw [hrun]
  exact Keeps.behind (Ledger.ungated_changes h hworld hreplies space target)
    fun raw => keeps_pure trivial

theorem ungated_ofSpace :
    Ends (fun _ => True) Fault.Ungated ((ofSpace space).runOn deployment world).1 := by
  have hsuccessor : successor space = .ok target := by rw [successor, htarget]
  rw [ofSpace, hsuccessor]
  refine (Keeps.behind (ungated_changesOf h hworld hreplies htarget) fun found => ?_).2
  refine (ungated_namesFor h .integrations _ space target).bind fun integrations _ => ?_
  refine (ungated_namesFor h .decoders _ space target).bind fun decoders _ => ?_
  refine (ungated_namesFor h .kvdbs _ space target).bind fun kvdbs _ => ?_
  exact (ungated_namesFor h .rules _ space target).bind fun rules _ => keeps_pure trivial

end Preview

/-! ### Commits -/

namespace Commit

variable {plan : EntityType → List Change}

/-- A step ends in a fault of its own or in a stale change, whatever its work does. -/
theorem ungated_step (name : String) (work : Work α) :
    (step name work).Keeps deployment (fun _ => True) (fun _ => True) Fault.Ungated := by
  intro world _
  rw [runOn_step]
  refine ⟨trivial, ?_⟩
  rcases (work.runOn deployment world).1 with fault | value
  · show (named name fault).Ungated
    cases fault <;> exact Category.noConfusion
  · trivial

theorem ungated_writeAll (types : List EntityType) (applied : Table Counts) :
    (writeAll plan space target types applied).Keeps deployment (fun _ => True) (fun _ => True)
      Fault.Ungated := by
  induction types generalizing applied with
  | nil => exact keeps_pure trivial
  | cons type rest ih =>
    rw [writeAll]
    split
    · exact ih applied
    · exact (ungated_step type.name _).bind fun counts _ => ih _

theorem ungated_removeAll (types : List EntityType) (applied : Table Counts) :
    (removeAll plan target types applied).Keeps deployment (fun _ => True) (fun _ => True)
      Fault.Ungated := by
  induction types generalizing applied with
  | nil => exact keeps_pure trivial
  | cons type rest ih =>
    rw [removeAll]
    split
    · exact ih applied
    · exact (ungated_step type.name _).bind fun count _ => ih _

/-- A commit does not end for want of a root decoder, whatever it is applied to. -/
theorem ungated_execute (withPolicy : Bool) :
    (execute plan withPolicy space target).Keeps deployment (fun _ => True) (fun _ => True)
      Fault.Ungated := by
  have hpolicy : (policyWork withPolicy space target).Keeps deployment (fun _ => True)
      (fun _ => True) Fault.Ungated := by
    rw [policyWork]
    split
    · exact ungated_step policyStep _
    · exact keeps_pure trivial
  rw [execute_eq]
  refine (ungated_writeAll _ []).bind fun applied _ => ?_
  refine hpolicy.bind fun updated _ => ?_
  exact (ungated_removeAll _ applied).bind fun counts _ => keeps_pure trivial

end Commit

end Lifecycle
