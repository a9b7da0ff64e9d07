import Lifecycle.Proofs.Committing
import Lifecycle.Proofs.Stages
import Lifecycle.Proofs.TrueHashes

/-!
# Writes that a run issues

A run that has a value has *issued* the writes that stand in the log behind those that were there
before (`Work.Issues`). Work that only reads issues none (`Work.issues_of_quiet`), and what runs in
sequence issue stands one behind the other (`Work.Issues.bind`). So the parts of a commit issue an
upsert for each planned write, in the order of the plan and with a body that is shown under the id
(`Commit.issues_write`), a delete for each copy that was there to be removed
(`Commit.issues_remove`), and an upsert of the policy if it is reported as updated
(`Commit.issues_promotePolicy`).

This holds on any store in memory, whatever the settings, the mappings and the contents are.
-/

namespace Lifecycle

variable {α β : Type} {deployment : Deployment}

/-! ### Runs and what they issue -/

namespace Work

/-- Every run that has a value has issued writes that the value tells of. -/
def Issues (work : Work α) (deployment : Deployment) (told : α → List Call → Prop) : Prop :=
  ∀ world value later, work.runOn deployment world = (.ok value, later) →
    ∃ issued, later.written = world.written ++ issued ∧ told value issued

variable {told other : α → List Call → Prop}

theorem Issues.mono {work : Work α} (h : work.Issues deployment told)
    (hother : ∀ value issued, told value issued → other value issued) :
    work.Issues deployment other := by
  intro world value later hrun
  obtain ⟨issued, hissued, htold⟩ := h world value later hrun
  exact ⟨issued, hissued, hother value issued htold⟩

theorem issues_pure {value : α} (h : told value []) :
    (pure value : Work α).Issues deployment told := by
  intro world found later hrun
  obtain ⟨hvalue, rfl⟩ := Prod.mk.inj hrun
  cases hvalue
  exact ⟨[], (List.append_nil _).symm, h⟩

theorem issues_throw (fault : Fault) : (throw fault : Work α).Issues deployment told := by
  intro world value later hrun
  cases (Prod.mk.inj hrun).1

theorem issues_ofExcept (result : Except Fault α) :
    (ofExcept result).Issues deployment fun _ issued => issued = [] := by
  cases result with
  | error fault => exact issues_throw fault
  | ok value => exact issues_pure rfl

/-- Of runs in sequence each issues its writes behind those of the one before. -/
theorem Issues.bind {work : Work α} {next : α → Work β} {after : β → List Call → Prop}
    (h : work.Issues deployment told)
    (hnext : ∀ value first, told value first →
      (next value).Issues deployment fun found more => after found (first ++ more)) :
    (work >>= next).Issues deployment after := by
  intro world found later hrun
  obtain ⟨value, middle, hvalue, hrest⟩ := runOn_bind_ok hrun
  obtain ⟨first, hfirst, htold⟩ := h world value middle hvalue
  obtain ⟨more, hmore, hafter⟩ := hnext value first htold middle found later hrest
  exact ⟨first ++ more, by rw [hmore, hfirst, List.append_assoc], hafter⟩

theorem issues_settings_bind {next : ContentSettings → Work α}
    (h : (next deployment.settings).Issues deployment told) :
    (settings >>= next).Issues deployment told := by
  intro world value later hrun
  rw [runOn_settings_bind] at hrun
  exact h world value later hrun

/-- A step that has a value is its work. -/
theorem Issues.step {work : Work α} (h : work.Issues deployment told) (name : String) :
    (Commit.step name work).Issues deployment told :=
  fun world value later hrun => h world value later (Commit.runOn_of_step hrun)

theorem issues_of_performs {work : Work α} {call : Call} {outcome : Except Fault α}
    (h : ∀ world, work.Performs deployment world [call] outcome) :
    work.Issues deployment fun _ issued => issued = [call] := by
  intro world value later hrun
  obtain ⟨-, hafter⟩ := (h world).of_ok hrun
  exact ⟨[call], by simpa using hafter.written, rfl⟩

theorem issues_upsert (hbackend : deployment.backend = .memory) (index id : String)
    (body : Table Json) :
    (Store.upsert index id body).Issues deployment fun _ issued =>
      issued = [.upsert index id body] :=
  issues_of_performs fun _ => Store.performs_upsert hbackend index id body

theorem issues_delete (hbackend : deployment.backend = .memory) (index id : String) :
    (Store.delete index id).Issues deployment fun _ issued => issued = [.delete index id] :=
  issues_of_performs fun _ => Store.performs_delete hbackend index id

end Work

open Work

/-! ### Reading -/

/-- What is known while nothing is written: the log of the writes. -/
def Contract.quiet (written : List Call) : Contract where
  holds world := world.written = written
  writes _ _ := False

/-- Nothing that only reads in memory writes. -/
theorem Contract.quiet_reads (hbackend : deployment.backend = .memory) (written : List Call) :
    (Contract.quiet written).Reads deployment := by
  have hperforms : ∀ {α : Type} {work : Work α}, (∀ world, ∃ outcome : Except Fault α,
      work.Performs deployment world [] outcome) →
        work.Meets (Contract.quiet written) deployment := by
    intro α work h world hworld
    obtain ⟨outcome, hwork⟩ := h world
    obtain ⟨result, later, hrun, -, hafter⟩ := hwork.run_of_read
    rw [hrun]
    have hwritten : later.written = world.written := by simpa using hafter.written
    exact ⟨hwritten.trans hworld, ends_any _⟩
  have hcall : ∀ {call : Call}, call.method.writes = false →
      (Work.call call).Meets (Contract.quiet written) deployment :=
    fun hreads => hperforms fun _ => ⟨_, performs_call hreads⟩
  refine ⟨fun index asked => hperforms fun _ => ⟨_, Store.performs_search hbackend index asked⟩,
    fun index fields => keeps_fieldCapabilities hbackend (hcall rfl), fun space => ?_,
    fun _ _ => ends_any _, fun _ _ _ hworld => hworld, fun _ _ hworld => hworld,
    fun _ _ _ _ _ _ => trivial, fun _ _ => trivial, fun _ _ => trivial⟩
  rw [Ledger.told]
  refine keeps_read.bind fun found _ => ?_
  have hexchange : ∀ request, (Work.exchange request).Meets (Contract.quiet written) deployment :=
    fun request world hworld => ⟨hworld, trivial⟩
  exact (hexchange _).bind fun _ _ => keeps_ofExcept (ends_any _)

/-- Work that keeps the log of the writes issues none. -/
theorem Work.issues_of_quiet {work : Work α} {value : α → Prop}
    (h : ∀ written, work.Meets (.quiet written) deployment value) :
    work.Issues deployment fun found issued => value found ∧ issued = [] := by
  intro world found later hrun
  obtain ⟨hwritten, hvalue⟩ := h world.written world rfl
  rw [hrun] at hwritten hvalue
  exact ⟨[], by rw [List.append_nil]; exact hwritten, hvalue, rfl⟩

/-! ### Copies -/

namespace Content

/-- A body that is made for a copy is shown under the id of its source. -/
theorem shownId?_successorBody {source : Table Json} {value : Json}
    (h : entityId? source = .ok (some value)) (target : Space) :
    shownId? (Commit.successorBody source target) = some value.display := by
  obtain ⟨document, hdocument, hcopy, -⟩ := exists_document_successorBody ⟨value, h⟩ target
  have hunder : Json.under (relabelledField document target.name) "id" =
      Json.under document "id" := by
    rw [Json.under, Json.under, get?_relabelledField_of_ne (by decide)]
  have hsource : entityId? source = .ok (Json.under document "id").given? := by
    rw [entityId?, documentFields_of_object hdocument]
    rfl
  have hsuccessor : entityId? (Commit.successorBody source target) =
      .ok (Json.under document "id").given? := by
    rw [entityId?, documentFields_of_object hcopy]
    exact congrArg (fun value : Json => Except.ok value.given?) hunder
  rw [shownId?, hsuccessor, ← hsource, h]
  rfl

end Content

namespace Commit

/-- Calls that write the copies of entities of a type, one for each change in their order, with a
body that is shown under the id of the change. -/
def AreCopies (settings : ContentSettings) (type : EntityType) (changes : List Change)
    (issued : List Call) : Prop :=
  List.Forall₂ (fun change call => ∃ place body,
    call = .upsert (settings.indexFor type) place body ∧
      Content.shownId? body = some change.id) changes issued

/-- Calls that remove documents of a type. -/
def AreRemovals (settings : ContentSettings) (type : EntityType) (issued : List Call) : Prop :=
  ∀ call ∈ issued, ∃ place, call = .delete (settings.indexFor type) place

variable (hbackend : deployment.backend = .memory)

include hbackend

/-- A lookup issues no writes, and what it enters under an id is shown under it. -/
theorem issues_copies (type : EntityType) (ids : List String) (space : Space) (source : Json) :
    (copies type ids space source).Issues deployment fun found issued =>
      (∀ id hit, Table.get? found id = some hit →
        ∃ value, Content.entityId? hit.source = .ok (some value) ∧ value.display = id) ∧
      issued = [] :=
  Work.issues_of_quiet fun written =>
    meets_copies_shown (Contract.quiet_reads hbackend written) type ids space source

/-- Writing copies issues one upsert for each change, and counts them. -/
theorem issues_writeCopies {type : EntityType} {target : Space} {sources existing : Table Hit}
    {changes : List Change}
    (hshown : ∀ change ∈ changes, Content.shownId?
      (successorBody (sourceOf sources change.id) target) = some change.id) (counts : Counts) :
    (writeCopies deployment.settings type target sources existing changes counts).Issues deployment
      fun found issued => found = counted changes counts ∧
        AreCopies deployment.settings type changes issued := by
  induction changes generalizing counts with
  | nil => exact issues_pure ⟨rfl, .nil⟩
  | cons change rest ih =>
    rw [writeCopies]
    refine (issues_ofExcept _).bind fun place _ hnone => ?_
    refine (issues_upsert hbackend _ place _).bind fun _ _ hone => ?_
    refine (ih (fun other hother => hshown other (List.mem_cons_of_mem _ hother)) _).mono ?_
    rintro found more ⟨hfound, hmore⟩
    subst hnone hone
    exact ⟨hfound, .cons ⟨place, _, rfl, hshown change List.mem_cons_self⟩ hmore⟩

/-- Writing the copies of changed entities issues one upsert for each change. -/
theorem issues_write (type : EntityType) (changes : List Change) (space target : Space) :
    (write type changes space target).Issues deployment fun found issued =>
      found = counted changes [] ∧ AreCopies deployment.settings type changes issued := by
  rw [write]
  refine issues_settings_bind ?_
  refine (issues_copies hbackend type _ space .null).bind ?_
  rintro sources _ ⟨hsources, rfl⟩
  dsimp only
  split
  · exact issues_throw _
  · rename_i hmissing
    have hall : ∀ change ∈ changes, sources.has change.id = true := by simpa using hmissing
    refine (issues_copies hbackend type _ target _).bind ?_
    rintro existing _ ⟨-, rfl⟩
    refine issues_writeCopies hbackend (fun change hchange => ?_) []
    -- all sources are there, each under the id that it is shown under
    obtain ⟨hit, hhit⟩ := Option.isSome_iff_exists.mp (hall change hchange)
    obtain ⟨value, hvalue, hid⟩ := hsources _ hit hhit
    rw [sourceOf, hhit, ← hid]
    exact Content.shownId?_successorBody hvalue target

/-- Removing copies issues the deletes that are counted. -/
theorem issues_removeCopies (type : EntityType) (existing : Table Hit) (ids : List String)
    (count : Nat) :
    (removeCopies (deployment.settings.indexFor type) existing ids count).Issues deployment
      fun found issued => found = count + issued.length ∧
        AreRemovals deployment.settings type issued := by
  induction ids generalizing count with
  | nil => exact issues_pure ⟨rfl, List.forall_mem_nil _⟩
  | cons id rest ih =>
    rw [removeCopies]
    cases existing.get? id with
    | none => exact ih count
    | some hit =>
      refine (issues_delete hbackend _ hit.id).bind fun _ _ hone => (ih (count + 1)).mono ?_
      rintro found more ⟨hfound, hmore⟩
      subst hone
      refine ⟨?_, List.forall_mem_cons.mpr ⟨⟨hit.id, rfl⟩, hmore⟩⟩
      rw [hfound, List.length_append, List.length_singleton]
      omega

/-- Removing the copies of entities issues the deletes that are counted. -/
theorem issues_remove (type : EntityType) (changes : List Change) (target : Space) :
    (remove type changes target).Issues deployment fun found issued =>
      found = issued.length ∧ AreRemovals deployment.settings type issued := by
  rw [remove]
  refine issues_settings_bind ?_
  refine (issues_copies hbackend type _ target _).bind ?_
  rintro existing _ ⟨-, rfl⟩
  refine (issues_removeCopies hbackend type existing _ 0).mono ?_
  rintro found more ⟨hfound, hmore⟩
  exact ⟨by rw [hfound, Nat.zero_add]; rfl, hmore⟩

/-! ### The policy -/

/-- Saving a policy issues one upsert. -/
theorem issues_save (space : Space) (document : Policy) (current shape : Option PolicyRecord) :
    (Policies.save space document current shape).Issues deployment fun _ issued =>
      ∃ place body, issued = [.upsert deployment.settings.policiesIndex place body] := by
  rw [Policies.save]
  refine issues_settings_bind ?_
  have hnow : Work.now.Issues deployment fun _ issued => issued = [] := by
    intro world time later hrun
    obtain ⟨-, rfl⟩ := Prod.mk.inj hrun
    exact ⟨[], (List.append_nil _).symm, rfl⟩
  refine hnow.bind fun time _ hnone => ?_
  refine (issues_ofExcept _).bind fun found _ hnone' => ?_
  obtain ⟨place, base⟩ := found
  refine (issues_upsert hbackend _ place _).bind fun _ _ hone => issues_pure ?_
  subst hnone hnone' hone
  exact ⟨place, _, rfl⟩

/-- Promoting a policy issues an upsert if the policy is reported as updated, and nothing else. -/
theorem issues_promotePolicy (space target : Space) :
    (promotePolicy space target).Issues deployment fun updated issued =>
      if updated then ∃ place body,
        issued = [.upsert deployment.settings.policiesIndex place body]
      else issued = [] := by
  have hget : ∀ space, (Policies.get? space).Issues deployment fun _ issued => issued = [] :=
    fun space => (Work.issues_of_quiet fun written =>
      Policies.meets_get? (Contract.quiet_reads hbackend written) space).mono fun _ _ h => h.2
  rw [promotePolicy]
  refine (hget space).bind fun found _ hnone => ?_
  cases found with
  | none => exact issues_throw _
  | some source =>
    refine (hget target).bind fun current _ hnone' => ?_
    subst hnone hnone'
    dsimp only
    split
    · exact issues_pure rfl
    · refine (issues_save hbackend target _ current (some source)).bind fun _ _ hone => ?_
      refine issues_pure ?_
      obtain ⟨place, body, rfl⟩ := hone
      exact ⟨place, body, rfl⟩

end Commit

end Lifecycle
