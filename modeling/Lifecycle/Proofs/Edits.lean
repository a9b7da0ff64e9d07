import Lifecycle.Proofs.Reads

/-!
# Edits of the policy

An edit ends with one write, or leaves the contents as they are (`Work.Saves`): it reads the policy
first, checks what it has to check, and saves at last. The three edits are of this kind
(`Policies.saves_update`, `Policies.saves_reorder`, `Gate.saves_assign`), and since they are allowed
in `draft` only, the write puts a new body in place of the policy that is found there
(`Policies.IsEdit`).
-/

namespace Lifecycle

variable {α β : Type} {deployment : Deployment} {world : World}

namespace Work

/-! ### Work that ends with a write -/

/-- A run of the work ends with a write that is asked for, or in a fault that leaves the contents
as they are. -/
inductive Saves (work : Work α) (deployment : Deployment) (world : World) (asked : Call → Prop) :
    Prop where
  | saved (value : α) (later : World) (call : Call) (run : work.runOn deployment world =
      (.ok value, later)) (asked : asked call) (after : world.After [call] none later)
  | left (fault : Fault) (later : World) (failed : Option Call)
      (run : work.runOn deployment world = (.error fault, later))
      (after : world.After [] failed later)

variable {asked : Call → Prop}

theorem saves_throw (fault : Fault) : (throw fault : Work α).Saves deployment world asked :=
  .left fault world none rfl (.refl world)

/-- Reading in front of work that ends with a write. -/
theorem Reads.bind_saves {work : Work α} {next : α → Work β} (h : work.Reads deployment)
    (hnext : ∀ value later, work.runOn deployment world = (.ok value, later) →
      world.After [] none later → (next value).Saves deployment later asked) :
    (work >>= next).Saves deployment world asked := by
  have hread := h world
  rcases hrun : work.runOn deployment world with ⟨fault | value, later⟩
  · rw [hrun] at hread
    exact .left fault later none (by rw [runOn_bind, hrun]) hread
  · rw [hrun] at hread
    have hwhole : (work >>= next).runOn deployment world = (next value).runOn deployment later := by
      rw [runOn_bind, hrun]
    cases hnext value later hrun hread with
    | saved result last call run hasked after =>
      exact .saved result last call (hwhole.trans run) hasked (hread.trans after)
    | left fault last failed run after =>
      exact .left fault last failed (hwhole.trans run) (hread.trans after)

/-- What is made of the value of work that ends with a write. -/
theorem Saves.bind_pure {work : Work α} (h : work.Saves deployment world asked) (f : α → β) :
    (work >>= fun value => pure (f value)).Saves deployment world asked := by
  cases h with
  | saved value later call run hasked after =>
    exact .saved (f value) later call (by rw [runOn_bind, run]; rfl) hasked after
  | left fault later failed run after =>
    exact .left fault later failed (by rw [runOn_bind, run]) after

theorem saves_upsert (h : deployment.Standard) (index id : String) (body : Table Json) :
    (Store.upsert index id body).Saves deployment world (· = .upsert index id body) := by
  obtain ⟨later, ⟨hrun, hafter⟩ | ⟨fault, hrun, hafter⟩⟩ :=
    Store.runOn_upsert h.backend index id body
  · exact .saved () later _ hrun rfl hafter
  · exact .left fault later _ hrun hafter

end Work

open Work

/-! ### Policies -/

/-- What may be done in a space besides a promotion may be done in `draft` only. -/
theorem Space.eq_draft_of_allows {space : Space} {action : Action} (haction : action ≠ .promote)
    (h : space.allows action = true) : space = .draft := by
  cases space with
  | draft => rfl
  | test => exact absurd (beq_iff_eq.mp h) haction
  | custom => cases h
  | standard => cases h

namespace Policies

/-- Whether a call saves an edited policy: a new document in place of the policy of `draft` that is
found. -/
def IsEdit (memory : Memory) (call : Call) : Prop :=
  ∃ record document time, found? memory .draft = .ok (some record) ∧
    call = saveCall .draft document (some record) none time

theorem reads_now : now.Reads deployment := by
  intro world
  exact ⟨rfl, by simp [now, Work.runOn, World.written]; rfl, id, fun _ => id⟩

theorem saves_save (h : deployment.Standard) (space : Space) (document : Policy)
    (record : PolicyRecord) :
    (save space document (some record) none).Saves deployment world fun call =>
      ∃ document time, call = saveCall space document (some record) none time := by
  rw [save]
  refine reads_settings.bind_saves fun settings settled hsettled _ => ?_
  obtain ⟨rfl, -⟩ : deployment.settings = settings ∧ world = settled := by
    obtain ⟨hsettings, hworld⟩ := Prod.mk.inj hsettled
    exact ⟨Except.ok.inj hsettings, hworld⟩
  refine reads_now.bind_saves fun time later _ _ => ?_
  rw [h.policiesIndex]
  show Saves (do
    Store.upsert ".cti-policies" record.docId
      (savedBody space (stamped document time) record.source)
    pure _ : Work PolicyRecord) deployment later _
  have hupsert : (Store.upsert ".cti-policies" record.docId
      (savedBody space (stamped document time) record.source)).Saves deployment later _ :=
    saves_upsert h _ _ _
  -- the call is known only here, since its body has the time in it that is read on the way
  cases hupsert with
  | saved value last call run hasked after =>
    exact Saves.bind_pure (.saved value last call run ⟨document, time, hasked⟩ after) _
  | left fault last failed run after =>
    exact Saves.bind_pure (.left fault last failed run after) _

theorem reads_editable (h : deployment.Standard) (space : Space) (action : Action) :
    (editable space action).Reads deployment := by
  rw [editable]
  refine (reads_throw _).ite ((reads_get? h space).bind fun found => ?_)
  cases found with
  | none => exact reads_throw _
  | some record => exact reads_pure record

/-- A policy that may be edited is the one that is found in a space where the edit is allowed. -/
theorem found_of_editable (h : deployment.Standard) (hworld : world.Probed) {space : Space}
    {action : Action} {record : PolicyRecord} {later : World}
    (hrun : (editable space action).runOn deployment world = (.ok record, later)) :
    space.allows action = true ∧ found? world.memory space = .ok (some record) := by
  have hget : (get? space).Performs deployment world [] (found? world.memory space) :=
    performs_found h hworld space
  rw [editable] at hrun
  cases hallowed : space.allows action with
  | false =>
    rw [hallowed] at hrun
    cases (Prod.mk.inj hrun).1
  | true =>
    simp only [hallowed, Bool.not_true, Bool.false_eq_true, if_false] at hrun
    obtain ⟨found, middle, hfound, hrest⟩ := runOn_bind_ok hrun
    rw [(hget.of_ok hfound).1]
    cases found with
    | none => cases (Prod.mk.inj hrest).1
    | some other =>
      obtain ⟨hrecord, -⟩ := Prod.mk.inj hrest
      rw [Except.ok.inj hrecord]
      exact ⟨rfl, rfl⟩

/-- An edit: work that saves a policy behind a reading of the one that may be edited. -/
theorem saves_edit (h : deployment.Standard) (hworld : world.Probed) (space : Space)
    {action : Action} (haction : action ≠ .promote) {next : PolicyRecord → Work PolicyRecord}
    (hnext : ∀ record later, (next record).Saves deployment later fun call =>
      ∃ document time, call = saveCall space document (some record) none time) :
    (editable space action >>= next).Saves deployment world (IsEdit world.memory) := by
  refine (reads_editable h space action).bind_saves fun record later hrun _ => ?_
  obtain ⟨hallowed, hfound⟩ := found_of_editable h hworld hrun
  cases Space.eq_draft_of_allows haction hallowed
  cases hnext record later with
  | saved value last call run hasked after =>
    obtain ⟨document, time, hcall⟩ := hasked
    exact .saved value last call run ⟨record, document, time, hfound, hcall⟩ after
  | left fault last failed run after => exact .left fault last failed run after

theorem saves_reorder (h : deployment.Standard) (hworld : world.Probed) (space : Space)
    (wanted : List String) :
    (reorder space wanted).Saves deployment world (IsEdit world.memory) :=
  saves_edit h hworld space (by decide) fun record later => saves_save h space _ record

theorem saves_update (h : deployment.Standard) (hworld : world.Probed) (space : Space)
    (given : PolicyUpdate) :
    (update space given).Saves deployment world (IsEdit world.memory) :=
  saves_edit h hworld space (by decide) fun record later => saves_save h space _ record

end Policies

theorem Gate.saves_assign (h : deployment.Standard) (hworld : world.Probed) (space : Space)
    (decoder : String) :
    (assign space decoder).Saves deployment world (Policies.IsEdit world.memory) := by
  refine Policies.saves_edit h hworld space (by decide) fun record later => ?_
  have hsave : ∀ last, (Policies.save space
      { record.document with rootDecoder := Text.trim decoder } (some record) none).Saves
        deployment last fun call =>
          ∃ document time, call = Policies.saveCall space document (some record) none time :=
    fun last => Policies.saves_save h space _ record
  -- a decoder has to exist, unless it is blank, which takes the root decoder away
  dsimp only
  split
  · refine (reads_decoderExists h space _).bind_saves fun found last _ _ => ?_
    cases found with
    | false => exact saves_throw _
    | true => exact hsave last
  · exact hsave later

end Lifecycle
