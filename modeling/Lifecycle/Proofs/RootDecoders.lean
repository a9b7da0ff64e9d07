import Lifecycle.Proofs.BehindGate
import Lifecycle.Proofs.Interference
import Lifecycle.Proofs.Operations
import Lifecycle.Proofs.Reordering

/-!
# Root decoders

Content leaves `draft`, by a preview or by a promotion, only if the policy of `draft` names a root
decoder that `draft` has. Whatever else goes wrong, the gate alone says that one is required, and it
says so exactly if the policy lacks one (`Gate.outcome_eq_required_iff`); then nothing else is done,
and nobody is asked (`Gate.unsent_ensure`). An assignment looks for the decoder by the same query,
so that the gate is satisfied behind each assignment of an id that is not blank
(`Gate.check_of_assign`), and other ids are not assigned (`Gate.performs_assign_missing`).
`root_decoder_gate` has all of this about one world.
-/

namespace Lifecycle

open Work

variable {α : Type} {deployment : Deployment} {world later : World} {space target : Space}

/-! ### Work that stays in memory -/

/-- What holds of a world whatever is called and probed in it. -/
structure World.Local (holds : World → Prop) : Prop where
  called : ∀ world rules calls, holds world → holds { world with rules, calls }
  probed : ∀ world spaceFields, holds world → holds { world with spaceFields }

/-- Work that does not end what holds of a world, whatever it ends in. -/
abbrev Work.Spares (work : Work α) (deployment : Deployment) (holds : World → Prop) : Prop :=
  work.Keeps deployment holds (fun _ => True) fun _ => True

section

variable {holds : World → Prop} (hlocal : World.Local holds)
  (hbackend : deployment.backend = .memory)

include hlocal

theorem Work.spares_call (call : Call) : (Work.call call).Spares deployment holds := by
  intro world hworld
  rw [runOn_call]
  exact ⟨hlocal.called world _ _ hworld, ends_any _⟩

include hbackend

theorem Store.spares_search (index : String) (asked : Search) :
    (search index asked).Spares deployment holds := by
  rw [search]
  refine keeps_read.bind fun found hfound => ?_
  rw [hfound, hbackend]
  refine (spares_call hlocal _).bind fun _ _ => ?_
  exact keeps_get.bind fun _ _ => keeps_ofExcept (ends_any _)

theorem Resolver.spares_within (index : String) (space : Space) (query : Json) :
    (within index space query).Spares deployment holds := by
  have hname : space.name ≠ "" := by cases space <;> decide
  have hprobe : (Store.fieldCapabilities index
      deployment.settings.spaceFieldCandidates).Spares deployment holds :=
    keeps_fieldCapabilities hbackend (spares_call hlocal _)
  have hresolve : (resolve index).Spares deployment holds := by
    rw [resolve]
    refine (keeps_get.bind fun _ _ => keeps_pure trivial : (cached? index).Spares _ _).bind
      fun kept _ => ?_
    cases kept with
    | some fields => exact keeps_pure trivial
    | none =>
      refine keeps_settings_bind (hprobe.attempt.bind fun outcome _ => ?_)
      refine (keeps_modify fun world hworld => ?_).bind fun _ _ => keeps_pure trivial
      exact hlocal.probed world _ hworld
  rw [within, scopedQuery]
  · exact hresolve.bind fun fields _ => keeps_ofExcept (ends_any _)
  · exact hname

theorem Policies.spares_get? (space : Space) : (get? space).Spares deployment holds := by
  rw [get?, first?]
  refine keeps_settings_bind ((Resolver.spares_within hlocal hbackend _ space _).bind
    fun query _ => ?_)
  refine (Store.spares_search hlocal hbackend _ _).bind fun page _ => ?_
  split
  · exact keeps_pure trivial
  · exact (keeps_ofExcept (ends_any _)).bind fun record _ => keeps_pure trivial

/-- The gate stays in memory. -/
theorem Gate.spares_ensure (space : Space) : (ensure space).Spares deployment holds := by
  have hexists : ∀ decoder, (decoderExists space decoder).Spares deployment holds := by
    intro decoder
    rw [decoderExists]
    refine keeps_settings_bind ((Resolver.spares_within hlocal hbackend _ space _).bind
      fun query _ => ?_)
    exact (Store.spares_search hlocal hbackend _ _).bind fun page _ => keeps_pure trivial
  have hsatisfied : ∀ policy, (isSatisfied space policy).Spares deployment holds := by
    intro policy
    cases policy with
    | none => exact keeps_pure trivial
    | some record =>
      rw [isSatisfied]
      split
      · exact keeps_pure trivial
      · exact hexists _
  have hcheck : (check space).Spares deployment holds := by
    rw [check]
    exact (Policies.spares_get? hlocal hbackend space).bind fun policy _ =>
      (hsatisfied policy).bind fun satisfied _ => keeps_pure trivial
  rw [ensure]
  refine hcheck.bind fun requirement _ => ?_
  split
  · exact keeps_throw trivial
  · exact keeps_pure trivial

end

/-- The gate asks nobody. -/
theorem Gate.unsent_ensure (hbackend : deployment.backend = .memory) (world : World)
    (space : Space) :
    ((ensure space).runOn deployment world).2.exchanges = world.exchanges ∧
      ((ensure space).runOn deployment world).2.replies = world.replies := by
  have hlocal : World.Local fun later =>
      later.exchanges = world.exchanges ∧ later.replies = world.replies :=
    ⟨fun _ _ _ => id, fun _ _ => id⟩
  exact (spares_ensure hlocal hbackend space world ⟨rfl, rfl⟩).1

/-! ### What the gate says -/

theorem Memory.Plain.replay {memory : Memory} (h : memory.Plain) (calls : List Call) :
    (memory.replay calls).Plain := by
  induction calls generalizing memory with
  | nil => exact h
  | cons call rest ih => exact ih (h.apply call)

theorem World.Settled.after (h : world.Settled) {done : List Call} {failed : Option Call}
    (hlater : world.After done failed later) : later.Settled := by
  refine ⟨?_, hlater.probed h.probed⟩
  rw [hlater.memory]
  exact h.plain.replay done

namespace Gate

/-- A space lacks a root decoder by its policy: it has none, or one that names no root decoder, or
one that names an id that no decoder of the space has. -/
def Lacks (memory : Memory) (space : Space) (policy : Option PolicyRecord) : Prop :=
  ∀ record ∈ policy, record.document.rootDecoder = "" ∨
    ∀ entry ∈ memory.entities .decoders, Scope.belongs space entry.2 = true →
      Scope.hasIdAmong [record.document.rootDecoder] entry.2 = false

theorem hasDecoder_eq_false_iff {docs : Documents} {decoder : String} :
    hasDecoder docs space decoder = false ↔
      ∀ entry ∈ docs, Scope.belongs space entry.2 = true →
        Scope.hasIdAmong [decoder] entry.2 = false := by
  simp [hasDecoder]

theorem lacks_iff {memory : Memory} {policy : Option PolicyRecord} :
    Lacks memory space policy ↔ satisfiedBy (memory.entities .decoders) space policy = false := by
  cases policy with
  | none => simp [Lacks, satisfiedBy]
  | some record => simp [Lacks, satisfiedBy, hasDecoder_eq_false_iff, or_iff_not_imp_left]

theorem performs_decoder (h : deployment.Standard) (hworld : world.Settled) (space : Space)
    (decoder : String) :
    (decoderExists space decoder).Performs deployment world []
      (.ok (hasDecoder (world.memory.entities .decoders) space decoder)) :=
  performs_decoderExists_of h hworld.probed fun _ hentry =>
    hworld.plain.asked_eq (indexFor_mem .decoders) hentry space [decoder]

theorem performs_check (h : deployment.Standard) (hworld : world.Settled) (space : Space) :
    (check space).Performs deployment world []
      ((Policies.stored? world.memory.policies space).map fun policy =>
        ⟨space.allows .defineRootDecoder,
          satisfiedBy (world.memory.entities .decoders) space policy⟩) := by
  refine performs_check_of (Policies.performs_stored h hworld space) fun later hlater decoder => ?_
  rw [← hlater.memory_eq]
  exact performs_decoder h (hworld.after hlater) space decoder

theorem performs_requirement (h : deployment.Standard) (hworld : world.Settled) (space : Space) :
    (ensure space).Performs deployment world [] (outcome world.memory space) :=
  performs_ensure_of (performs_check h hworld space)

/-- The gate says that a root decoder is required exactly of a space whose users may choose one, and
whose policy lacks it. -/
theorem outcome_eq_required_iff {memory : Memory} {name : String} :
    outcome memory space = .error (.decoderRequired name) ↔
      name = space.name ∧ space.allows .defineRootDecoder = true ∧
        ∃ policy, Policies.stored? memory.policies space = .ok policy ∧
          Lacks memory space policy := by
  rw [outcome]
  cases hstored : Policies.stored? memory.policies space with
  | error fault =>
    -- a policy that cannot be read is no want of a root decoder
    have hfault : fault.Ungated := by
      refine (?_ : Ends (fun _ => True) Fault.Ungated _).of_error hstored
      rw [Policies.stored?]
      split
      · trivial
      · exact (Policies.ungated_toRecord space _).bind fun record _ => trivial
    refine iff_of_false (fun h => ?_) ?_
    · rw [Except.error.inj h] at hfault
      exact hfault rfl
    · rintro ⟨-, -, policy, h, -⟩
      cases h
  | ok policy =>
    simp only [Except.ok.injEq, exists_eq_left', lacks_iff]
    cases space.allows .defineRootDecoder <;>
      cases satisfiedBy (memory.entities .decoders) space policy <;> simp [eq_comm]

end Gate

namespace Endpoint

/-! ### What leaves a space -/

/-- What is asked for when content is to leave a space: a preview, or a promotion. -/
inductive Leaves (space : Space) : Asked → Prop
  | preview {name : String} (hname : Endpoint.space name = .ok space) : Leaves space (.preview name)
  | promote (changes : ChangeSet) : Leaves space (.promote ⟨space, changes⟩)

namespace Leaves

variable {asked : Asked} (h : Leaves space asked)

include h

/-- Where nothing may leave a space, nothing is done. -/
theorem runOn_refused (htarget : space.target? = none) :
    asked.work.runOn deployment world =
      (.error (.notAllowed space.name Action.promote.name), world) := by
  have hsuccessor : Preview.successor space =
      .error (.notAllowed space.name Action.promote.name) := by
    rw [Preview.successor, htarget]
  cases h with
  | preview hname =>
    simp only [Asked.work, Endpoint.preview, runOn_bind, runOn_ofExcept, hname, hsuccessor]
  | promote changes =>
    simp only [Asked.work, Endpoint.promote, Commit.promote, runOn_bind, runOn_ofExcept, hsuccessor]

/-- Where the gate fails, nothing else is done. -/
theorem runOn_stopped (htarget : space.target? = some target) {fault : Fault}
    (hgate : (Gate.ensure space).runOn deployment world = (.error fault, later)) :
    asked.work.runOn deployment world = (.error fault, later) := by
  have hsuccessor : Preview.successor space = .ok target := by rw [Preview.successor, htarget]
  cases h with
  | preview hname =>
    simp only [Asked.work, Endpoint.preview, runOn_bind, runOn_ofExcept, hname, hsuccessor, hgate]
  | promote changes =>
    simp only [Asked.work, Endpoint.promote, Commit.promote, runOn_bind, runOn_ofExcept, hsuccessor,
      hgate]

/-- Where the gate is passed, no root decoder is required any more. -/
theorem ungated_passed (hstandard : deployment.Standard) (htarget : space.target? = some target)
    (hgate : (Gate.ensure space).runOn deployment world = (.ok (), later)) (hlater : later.Calm)
    (hreplies : ∀ fault, .broken fault ∈ later.replies → fault.Ungated) :
    Ends (fun _ => True) Fault.Ungated (asked.work.runOn deployment world).1 := by
  have hsuccessor : Preview.successor space = .ok target := by rw [Preview.successor, htarget]
  cases h with
  | @preview name hname =>
    have hrun : (Endpoint.preview name).runOn deployment world =
        (Preview.ofSpace space >>= fun found => pure found.toJson).runOn deployment later := by
      simp only [Endpoint.preview, runOn_bind, runOn_ofExcept, hname, hsuccessor, hgate]
    show Ends _ _ ((Endpoint.preview name).runOn deployment world).1
    rw [hrun]
    exact ends_behind (Preview.ungated_ofSpace hstandard hlater hreplies htarget)
      fun found => keeps_pure trivial
  | promote changes =>
    have hrun : (Endpoint.promote ⟨space, changes⟩).runOn deployment world =
        (Preview.changesOf space >>= fun fresh =>
          Commit.execute (Commit.plan changes fresh) changes.hasPolicyUpdate space target >>=
            fun report => pure report.toJson).runOn deployment later := by
      simp only [Endpoint.promote, Commit.promote, runOn_bind, runOn_ofExcept, hsuccessor, hgate]
      rcases (Preview.changesOf space).runOn deployment later with ⟨_ | fresh, _⟩ <;> rfl
    show Ends _ _ ((Endpoint.promote ⟨space, changes⟩).runOn deployment world).1
    rw [hrun]
    exact ends_behind (Preview.ungated_changesOf hstandard hlater hreplies htarget).2
      fun fresh => (Commit.ungated_execute _).bind fun report _ => keeps_pure trivial

/-- What leaves a space ends for want of a root decoder exactly if the gate says so, and then
nothing but the gate has run. -/
theorem required_iff (hstandard : deployment.Standard) (hworld : world.Settled)
    (hrules : world.rules = [])
    (hreplies : ∀ fault, .broken fault ∈ world.replies → fault.Ungated)
    (htarget : space.target? = some target) (name : String) :
    (asked.work.runOn deployment world).1 = .error (.decoderRequired name) ↔
      Gate.outcome world.memory space = .error (.decoderRequired name) := by
  obtain ⟨gated, hgate, hafter⟩ :=
    (Gate.performs_requirement hstandard hworld space).run_eq hrules
  cases houtcome : Gate.outcome world.memory space with
  | error fault =>
    rw [houtcome] at hgate
    rw [h.runOn_stopped htarget hgate, Except.error.injEq, Except.error.injEq]
  | ok =>
    rw [houtcome] at hgate
    have hcalm : gated.Calm := World.Calm.after ⟨hworld.probed, hrules⟩ hafter
    have hkept := (Gate.unsent_ensure hstandard.backend world space).2
    rw [hgate] at hkept
    have hends := h.ungated_passed hstandard htarget hgate hcalm (hkept ▸ hreplies)
    exact iff_of_false (fun hrequired => hends.of_error hrequired rfl) nofun

/-- What ends for want of a root decoder is stopped by the gate, before anything else is done. -/
theorem stopped_of_required (hstandard : deployment.Standard) (hworld : world.Settled)
    (hrules : world.rules = [])
    (hreplies : ∀ fault, .broken fault ∈ world.replies → fault.Ungated)
    (htarget : space.target? = some target) {name : String}
    (hrun : asked.work.runOn deployment world = (.error (.decoderRequired name), later)) :
    (Gate.ensure space).runOn deployment world = (.error (.decoderRequired name), later) ∧
      name = space.name ∧ later.memory = world.memory ∧ later.written = world.written ∧
      later.exchanges = world.exchanges := by
  have houtcome := (h.required_iff hstandard hworld hrules hreplies htarget name).mp (by rw [hrun])
  obtain ⟨gated, hgate, hafter⟩ :=
    (Gate.performs_requirement hstandard hworld space).run_eq hrules
  rw [houtcome] at hgate
  obtain rfl : later = gated :=
    (Prod.mk.inj (hrun.symm.trans (h.runOn_stopped htarget hgate))).2
  have hexchanges := (Gate.unsent_ensure hstandard.backend world space).1
  rw [hgate] at hexchanges
  refine ⟨hgate, (Gate.outcome_eq_required_iff.mp houtcome).1, hafter.memory_eq, ?_, hexchanges⟩
  simpa using hafter.written

end Leaves

end Endpoint

/-! ### Root decoders that are assigned -/

namespace Gate

variable {decoder : String} {record saved : PolicyRecord}

/-- An assignment that succeeds saves the policy that is stored with the id, which is blank or that
of a decoder of the space. -/
theorem saved_of_assign (h : deployment.Standard) (hworld : world.Settled)
    (hrun : (assign .draft decoder).runOn deployment world = (.ok saved, later)) :
    ∃ record time, Policies.stored? world.memory.policies .draft = .ok (some record) ∧
      ((Text.trim decoder).isEmpty = true ∨
        hasDecoder (world.memory.entities .decoders) .draft (Text.trim decoder) = true) ∧
      world.After [Policies.saveCall .draft
        { record.document with rootDecoder := Text.trim decoder } (some record) none time] none
        later := by
  rw [assign] at hrun
  obtain ⟨record, middle, hrecord, hrun⟩ := runOn_bind_ok hrun
  have hread := Policies.reads_editable h .draft .defineRootDecoder world
  rw [hrecord] at hread
  have hstored : Policies.stored? world.memory.policies .draft = .ok (some record) := by
    rw [← Policies.found?_of_plain hworld.plain]
    exact (Policies.found_of_editable h hworld.probed hrecord).2
  have hsave : ∀ {start : World}, world.After [] none start →
      (Policies.save .draft { record.document with rootDecoder := Text.trim decoder }
        (some record) none).runOn deployment start = (.ok saved, later) →
      ∃ time, world.After [Policies.saveCall .draft
        { record.document with rootDecoder := Text.trim decoder } (some record) none time] none
        later := by
    intro start hstart hrun
    have hperforms : ∃ time, Work.Performs _ deployment start _ _ False :=
      Policies.performs_save h .draft
        { record.document with rootDecoder := Text.trim decoder } (some record) none
    obtain ⟨time, hperforms⟩ := hperforms
    exact ⟨time, hstart.trans (hperforms.of_ok hrun).2⟩
  dsimp only at hrun
  split at hrun
  · obtain ⟨found, last, hfound, hrun⟩ := runOn_bind_ok hrun
    obtain ⟨hhas, hlast⟩ :=
      (performs_decoder h (hworld.after hread) .draft (Text.trim decoder)).of_ok hfound
    rw [hread.memory_eq] at hhas
    cases found with
    | false => cases (Prod.mk.inj hrun).1
    | true =>
      obtain ⟨time, hafter⟩ := hsave (hread.trans hlast) hrun
      exact ⟨record, time, hstored, .inr (Except.ok.inj hhas), hafter⟩
  · rename_i hblank
    obtain ⟨time, hafter⟩ := hsave hread hrun
    exact ⟨record, time, hstored, .inl (by simpa using hblank), hafter⟩

/-- Behind an assignment that succeeds the gate is satisfied exactly if the id is not blank. -/
theorem check_of_assign (h : deployment.Standard) (hworld : world.Settled)
    (hrules : world.rules = [])
    (hrun : (assign .draft decoder).runOn deployment world = (.ok saved, later)) :
    ((check .draft).runOn deployment later).1 = .ok ⟨true, !(Text.trim decoder).isEmpty⟩ := by
  obtain ⟨record, time, hstored, hdecoder, hafter⟩ := saved_of_assign h hworld hrun
  obtain ⟨last, hcheck, -⟩ :=
    (performs_check h (hworld.after hafter) .draft).run_eq (hafter.rules hrules)
  have hdecoders : later.memory.entities .decoders = world.memory.entities .decoders := by
    rw [hafter.memory]
    refine Commit.entities_replay_policy (fun call hcall => ?_) .decoders
    rw [List.mem_singleton.mp hcall]
    rfl
  rw [hcheck, (Policies.saved_after hstored hafter).2, hdecoders]
  show Except.ok (Requirement.mk true (!(Text.trim decoder).isEmpty &&
    hasDecoder (world.memory.entities .decoders) .draft (Text.trim decoder))) = _
  rcases hdecoder with hblank | hhas
  · rw [hblank]
    rfl
  · rw [hhas, Bool.and_true]

/-- The assignment of an id that no decoder of the space has fails, and writes nothing. -/
theorem performs_assign_missing (h : deployment.Standard) (hworld : world.Settled)
    (hgiven : (Text.trim decoder).isEmpty = false)
    (hmissing : hasDecoder (world.memory.entities .decoders) .draft (Text.trim decoder) = false) :
    ∃ fault, (assign .draft decoder).Performs deployment world [] (.error fault) ∧
      ∀ record, Policies.stored? world.memory.policies .draft = .ok (some record) →
        fault = .decoderNotFound Space.draft.name (Text.trim decoder) := by
  have hallowed : Space.draft.allows .defineRootDecoder = true := rfl
  have hget := Policies.performs_stored h hworld .draft
  rw [assign, Policies.editable, hallowed]
  rcases hstored : Policies.stored? world.memory.policies .draft with fault | _ | record
  · rw [hstored] at hget
    exact ⟨fault, hget.bind_error.bind_error, fun _ hfound => by cases hfound⟩
  · rw [hstored] at hget
    exact ⟨.policyNotFound Space.draft.name,
      (hget.read_bind fun _ _ => performs_throw _).bind_error, fun _ hfound => by cases hfound⟩
  · rw [hstored] at hget
    refine ⟨.decoderNotFound Space.draft.name (Text.trim decoder), ?_, fun _ _ => rfl⟩
    refine (hget.read_bind fun _ _ => performs_pure record).read_bind fun later hlater => ?_
    have hexists := performs_decoder h (hworld.after hlater) .draft (Text.trim decoder)
    rw [hlater.memory_eq, hmissing] at hexists
    dsimp only
    rw [hgiven]
    exact hexists.read_bind fun _ _ => performs_throw _

end Gate

/-! ### The gate of a deployment -/

/-- What the gate owes in a world. -/
structure Gate.Sound (deployment : Deployment) (world : World) : Prop where
  /-- What leaves `draft` ends for want of a root decoder exactly if the policy of `draft` lacks
  one. -/
  required : ∀ asked, Endpoint.Leaves .draft asked →
    ((∃ name, (asked.work.runOn deployment world).1 = .error (.decoderRequired name)) ↔
      ∃ policy, ((Policies.get? .draft).runOn deployment world).1 = .ok policy ∧
        Lacks world.memory .draft policy)
  /-- Then nothing but the gate has run, and nothing was written or sent. -/
  stopped : ∀ asked, Endpoint.Leaves .draft asked → ∀ name later,
    asked.work.runOn deployment world = (.error (.decoderRequired name), later) →
      (ensure .draft).runOn deployment world = (.error (.decoderRequired name), later) ∧
        name = Space.draft.name ∧ later.memory = world.memory ∧
        later.written = world.written ∧ later.exchanges = world.exchanges
  /-- Nothing that leaves `test` ends so. -/
  test : ∀ asked, Endpoint.Leaves .test asked → ∀ name,
    (asked.work.runOn deployment world).1 ≠ .error (.decoderRequired name)
  /-- Nothing leaves `custom` or `standard`, and nothing is done for it. -/
  closed : ∀ space, space = .custom ∨ space = .standard → ∀ asked, Endpoint.Leaves space asked →
    asked.work.runOn deployment world =
      (.error (.notAllowed space.name Action.promote.name), world)
  /-- Behind an assignment that succeeds the gate is satisfied exactly if the id is not blank. -/
  assigned : ∀ decoder saved later,
    (assign .draft decoder).runOn deployment world = (.ok saved, later) →
      ((check .draft).runOn deployment later).1 = .ok ⟨true, !(Text.trim decoder).isEmpty⟩
  /-- The assignment of an id that no decoder of `draft` has fails and leaves the contents. -/
  missing : ∀ decoder, (Text.trim decoder).isEmpty = false →
    (∀ entry ∈ world.memory.entities .decoders, Scope.belongs .draft entry.2 = true →
      Scope.hasIdAmong [Text.trim decoder] entry.2 = false) →
    ∃ fault later, (assign .draft decoder).runOn deployment world = (.error fault, later) ∧
      later.memory = world.memory ∧ later.written = world.written ∧
      ∀ record, ((Policies.get? .draft).runOn deployment world).1 = .ok (some record) →
        fault = .decoderNotFound Space.draft.name (Text.trim decoder)

/-- Where no call fails, the gate lets content leave `draft` exactly if the policy of `draft` names
a decoder of `draft`, and an assignment keeps to the same rule. -/
theorem root_decoder_gate (h : deployment.Standard) (hworld : world.Settled)
    (hrules : world.rules = [])
    (hreplies : ∀ fault, .broken fault ∈ world.replies → fault.Ungated) :
    Gate.Sound deployment world := by
  have hget : ((Policies.get? .draft).runOn deployment world).1 =
      Policies.stored? world.memory.policies .draft := by
    obtain ⟨later, hrun, -⟩ := (Policies.performs_stored h hworld .draft).run_eq hrules
    rw [hrun]
  constructor
  case required =>
    intro asked hasked
    rw [hget]
    have hiff : ∀ name, _ ↔ _ := fun name =>
      (hasked.required_iff h hworld hrules hreplies rfl name).trans Gate.outcome_eq_required_iff
    simp only [hiff]
    exact ⟨fun ⟨_, _, _, hlacks⟩ => hlacks, fun hlacks => ⟨_, rfl, rfl, hlacks⟩⟩
  case stopped =>
    intro asked hasked name later
    exact hasked.stopped_of_required h hworld hrules hreplies rfl
  case test =>
    intro asked hasked name hrun
    -- the users of `test` may not choose a root decoder
    obtain ⟨-, hallowed, -⟩ := Gate.outcome_eq_required_iff.mp
      ((hasked.required_iff h hworld hrules hreplies rfl name).mp hrun)
    cases hallowed
  case closed =>
    intro space hspace asked hasked
    refine hasked.runOn_refused ?_
    rcases hspace with rfl | rfl <;> rfl
  case assigned =>
    intro decoder saved later
    exact Gate.check_of_assign h hworld hrules
  case missing =>
    intro decoder hgiven hmissing
    obtain ⟨fault, hassign, hfault⟩ := Gate.performs_assign_missing h hworld hgiven
      (Gate.hasDecoder_eq_false_iff.mpr hmissing)
    obtain ⟨later, hrun, hafter⟩ := hassign.run_eq hrules
    rw [hget]
    exact ⟨fault, later, hrun, hafter.memory_eq, by simpa using hafter.written, hfault⟩

/-- A store in which the root decoder of `draft` is in `test` only, and `draft` has another one. -/
def strayDecoder : World :=
  { memory :=
      { mappings := contentIndexes.map fun index => (index, Memory.defaultMapping)
        indexes :=
          [(".cti-decoders",
             [("a", [("space", .object [("name", .text "test")]),
                ("document", .object [("id", .text "x")])]),
              ("b", draftBody [("id", .text "y")])]),
           (".cti-policies", [("c", draftBody [("root_decoder", .text "x")])])] } }

theorem strayDecoder_standing : strayDecoder.Standing := by
  constructor
  · decide
  · intro index _ fields hget
    cases hget

/-- The policy of the store, as it is read. -/
def strayPolicy : PolicyRecord :=
  { docId := "c"
    space := .draft
    document := { rootDecoder := "x" }
    source := draftBody [("root_decoder", .text "x")] }

/-- The preview of `draft` fails until the other decoder is chosen, with blanks around its id. -/
theorem root_decoder_gate_strayDecoder :
    (∃ name, ((Endpoint.preview "draft").runOn {} strayDecoder).1 =
      .error (.decoderRequired name)) ∧
    ∃ saved later, (Gate.assign .draft " y ").runOn {} strayDecoder = (.ok saved, later) ∧
      ((Gate.check .draft).runOn {} later).1 = .ok ⟨true, true⟩ := by
  have hsound : Gate.Sound {} strayDecoder :=
    root_decoder_gate Deployment.standard_default strayDecoder_standing.settled rfl nofun
  have hassigned : ((Gate.assign .draft " y ").runOn {} strayDecoder).1.toOption.isSome = true := by
    decide +kernel
  constructor
  · refine (hsound.required (.preview "draft") (.preview rfl)).mpr ⟨some strayPolicy, ?_, ?_⟩
    · obtain ⟨later, hrun, -⟩ := (Policies.performs_stored Deployment.standard_default
        strayDecoder_standing.settled .draft).run_eq rfl
      rw [hrun]
      rfl
    · intro record hrecord
      cases hrecord
      exact .inr (by decide)
  · rcases hrun : (Gate.assign .draft " y ").runOn {} strayDecoder with ⟨fault | saved, later⟩
    · rw [hrun] at hassigned
      cases hassigned
    · exact ⟨saved, later, rfl, hsound.assigned " y " saved later hrun⟩

end Lifecycle
