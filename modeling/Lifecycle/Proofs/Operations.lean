import Lifecycle.Proofs.Contracts
import Lifecycle.Proofs.Requests

/-!
# What every operation that writes keeps

The operations that write, under a contract: edits of the policy, commits, and from these the
operations behind the HTTP interface (`Endpoint.Asked`), so that requests meet a contract too
(`Service.holds_handle`). What a contract has to say about the bodies that are written is asked of
the copies of documents with an id, and of policies that were read.
-/

namespace Lifecycle

variable {deployment : Deployment} {c : Contract}

/-! ### Edits of the policy -/

namespace Policies

open Work

section

variable (h : c.Lawful deployment)

include h

/-- Saving a policy whose body may be written, wherever its place is and whenever it is. -/
theorem keeps_save {fault : Fault → Prop} (hfault : ∀ found, c.fails found → fault found)
    {space : Space} {document : Policy} {current shape : Option PolicyRecord}
    (hplace : ∀ time, Ends (fun place => c.writes deployment.settings.policiesIndex
        (savedBody space (stamped document time) place.2)) fault
      (placeFor deployment.settings space (stamped document time) current shape)) :
    (save space document current shape).Keeps deployment c.holds (fun _ => True) fault := by
  rw [save]
  refine keeps_settings_bind ?_
  have hnow : now.Keeps deployment c.holds (fun _ => True) fault :=
    fun world hworld => ⟨h.clock world _ hworld, trivial⟩
  refine hnow.bind fun time _ => (keeps_ofExcept (hplace time)).bind fun place hwrites => ?_
  exact ((h.upsert _ _ _ hwrites).mono (fun _ => id) hfault).bind fun _ _ => keeps_pure trivial

/-- An edit of a policy that may be edited, with a document that may be written over it. -/
theorem meets_saved {space : Space} {document : Policy} (record : PolicyRecord)
    (hbody : ∀ time, c.writes deployment.settings.policiesIndex
      (savedBody space (stamped document time) record.source)) :
    (save space document (some record) none).Meets c deployment :=
  keeps_save h (fun _ => id) fun time => hbody time

end

section

variable (h : c.Lawful deployment)
  (hpolicy : ∀ space document base, Policy.Proper document →
    c.writes deployment.settings.policiesIndex (savedBody space document base))

include h hpolicy

theorem meets_reorder (space : Space) (wanted : List String) :
    (reorder space wanted).Meets c deployment := by
  rw [reorder]
  refine (meets_editable h.toReads space _).bind fun record hproper => ?_
  exact meets_saved h record fun time => hpolicy _ _ _ hproper

theorem meets_update (space : Space) (given : PolicyUpdate) :
    (update space given).Meets c deployment := by
  rw [update]
  refine (meets_editable h.toReads space _).bind fun record hproper => ?_
  exact meets_saved h record fun time => hpolicy _ _ _ hproper

end

end Policies

namespace Gate

open Work

theorem meets_assign (h : c.Lawful deployment)
    (hpolicy : ∀ space document base, Policy.Proper document →
      c.writes deployment.settings.policiesIndex (Policies.savedBody space document base))
    (space : Space) (decoder : String) : (assign space decoder).Meets c deployment := by
  rw [assign]
  refine (Policies.meets_editable h.toReads space _).bind fun record hproper => ?_
  have hsave : (Policies.save space { record.document with rootDecoder := Text.trim decoder }
      (some record) none).Meets c deployment :=
    Policies.meets_saved h record fun time => hpolicy _ _ _ hproper
  dsimp only
  split
  · refine (meets_decoderExists h.toReads space _).bind fun found _ => ?_
    cases found with
    | false => exact keeps_throw (h.refused _ rfl)
    | true => exact hsave
  · exact hsave

end Gate

/-! ### Copies -/

/-- A body whose document has an id. -/
def Content.Identified (body : Table Json) : Prop := ∃ id, entityId? body = .ok (some id)

namespace Commit

open Work

/-- What a lookup enters under an id has an id that is displayed so. -/
theorem meets_copies_shown (h : c.Reads deployment) (type : EntityType) (ids : List String)
    (space : Space) (source : Json) :
    (copies type ids space source).Meets c deployment fun found =>
      ∀ id hit, Table.get? found id = some hit →
        ∃ value, Content.entityId? hit.source = .ok (some value) ∧ value.display = id := by
  rw [copies]
  refine keeps_settings_bind ?_
  refine (h.within_terms _ space _ _).bind fun query _ => ?_
  refine h.scan _ _ (fun id hit hhit => by cases hhit) fun page hpage hit hhit found hfound => ?_
  rw [addCopy]
  cases hread : Content.entityId? hit.source with
  | error fault =>
    rw [Content.entityId?] at hread
    cases hdocument : Content.documentFields hit.source with
    | error cause =>
      rw [hdocument] at hread
      cases hread
      exact h.unread page hpage hit hhit fault (.document hdocument)
    | ok fields =>
      rw [hdocument] at hread
      cases hread
  | ok id =>
    cases id with
    | none => exact hfound
    | some id =>
      -- what is entered has the id that it is entered under, or was there before
      intro key other hother
      split at hother
      · exact hfound key other hother
      · rw [Table.get?_put] at hother
        split at hother
        · rename_i hkey
          cases hother
          exact ⟨id, hread, hkey⟩
        · exact hfound key other hother

theorem meets_copies (h : c.Reads deployment) (type : EntityType) (ids : List String)
    (space : Space) (source : Json) :
    (copies type ids space source).Meets c deployment fun found =>
      ∀ id hit, Table.get? found id = some hit → Content.Identified hit.source :=
  (meets_copies_shown h type ids space source).mono (fun _ hfound id hit hhit => by
    obtain ⟨value, hvalue, -⟩ := hfound id hit hhit
    exact ⟨value, hvalue⟩) fun _ => id

section

variable (h : c.Lawful deployment)

include h

theorem proceeds_writeCopies {type : EntityType} {target : Space} {sources existing : Table Hit}
    {changes : List Change}
    (hbody : ∀ change ∈ changes, c.writes (deployment.settings.indexFor type)
      (successorBody (sourceOf sources change.id) target)) (counts : Counts) :
    (writeCopies deployment.settings type target sources existing changes counts).Proceeds c
      deployment := by
  induction changes generalizing counts with
  | nil => exact keeps_pure trivial
  | cons change rest ih =>
    rw [writeCopies]
    have hplace : (Work.ofExcept (storageId deployment.settings existing target change.id)).Proceeds
        c deployment := by
      refine keeps_ofExcept ?_
      cases storageId deployment.settings existing target change.id <;> trivial
    refine hplace.bind fun place _ => ?_
    refine (h.upsert _ place _ (hbody change List.mem_cons_self)).proceeds.bind fun _ _ => ?_
    exact ih (fun other hother => hbody other (List.mem_cons_of_mem _ hother)) _

/-- Writing the copies of changed entities, if the bodies may be written that are made from what is
found of their sources. -/
theorem proceeds_write_from {type : EntityType} {changes : List Change} {space target : Space}
    {world : World} (hworld : c.holds world)
    (hwrites : ∀ sources : Table Hit,
      ((copies type (changes.map Change.id) space .null).runOn deployment world).1 = .ok sources →
        ∀ change ∈ changes, ∀ hit, sources.get? change.id = some hit →
          Content.Identified hit.source →
            c.writes (deployment.settings.indexFor type) (successorBody hit.source target)) :
    c.holds ((write type changes space target).runOn deployment world).2 := by
  have hcopies := meets_copies h.toReads type (changes.map Change.id)
  rw [write, runOn_settings_bind]
  refine (hcopies space .null).proceeds.holds_bind_from hworld
    fun sources hsources hidentified => ?_
  dsimp only
  split
  -- nothing is written when a source is missing
  · exact keeps_throw trivial
  · rename_i hmissing
    have hall : ∀ change ∈ changes, sources.has change.id = true := by simpa using hmissing
    refine (hcopies target _).proceeds.bind fun existing _ => proceeds_writeCopies h ?_ _
    intro change hchange
    obtain ⟨hit, hhit⟩ := Option.isSome_iff_exists.mp (hall change hchange)
    rw [sourceOf, hhit]
    exact hwrites sources hsources change hchange hit hhit (hidentified _ hit hhit)

theorem proceeds_removeCopies (index : String) (existing : Table Hit) (ids : List String)
    (count : Nat) : (removeCopies index existing ids count).Proceeds c deployment := by
  induction ids generalizing count with
  | nil => exact keeps_pure trivial
  | cons id rest ih =>
    rw [removeCopies]
    cases existing.get? id with
    | none => exact ih count
    | some hit => exact (h.delete index hit.id).proceeds.bind fun _ _ => ih _

theorem proceeds_remove (type : EntityType) (changes : List Change) (target : Space) :
    (remove type changes target).Proceeds c deployment := by
  rw [remove]
  refine keeps_settings_bind ?_
  refine (meets_copies h.toReads type _ target _).proceeds.bind fun existing _ => ?_
  exact proceeds_removeCopies h _ existing _ 0

/-! ### The policy -/

/-- Promoting a policy, if the bodies may be written that it is saved as. -/
theorem proceeds_promotePolicy_from {space target : Space} {world : World} (hworld : c.holds world)
    (hwrites : ∀ source,
      ((Policies.get? space).runOn deployment world).1 = .ok (some source) →
        source.document.Proper → ∀ time current base,
          c.writes deployment.settings.policiesIndex (Policies.savedBody target
            (Policies.stamped (promotedDocument source.document current) time) base)) :
    c.holds ((promotePolicy space target).runOn deployment world).2 := by
  have hget := Policies.meets_get? h.toReads
  rw [promotePolicy]
  refine (hget space).proceeds.holds_bind_from hworld fun found hfound hproper => ?_
  cases found with
  | none => exact keeps_throw trivial
  | some source =>
    refine (hget target).proceeds.bind fun current _ => ?_
    dsimp only
    split
    -- a policy with the same content is left as it is
    · exact keeps_pure trivial
    · refine (Policies.keeps_save h (fun _ _ => trivial) fun time => ?_).bind fun _ _ =>
        keeps_pure trivial
      cases Policies.placeFor deployment.settings target
          (Policies.stamped (promotedDocument source.document current) time) current
          (some source) with
      | error fault => trivial
      | ok place => exact hwrites source hfound (hproper source rfl) time current place.2

end

/-! ### Commits -/

/-- The fault of a step is one that is stale, or has the name of the step. -/
theorem meets_step (h : c.Reads deployment) {α : Type} (name : String) {work : Work α}
    {value : α → Prop} (hwork : work.Keeps deployment c.holds value fun _ => True) :
    (step name work).Meets c deployment value := by
  rw [step]
  refine hwork.tryCatch fun fault _ => ?_
  -- a stale change is told as such, and any other fault as one of the step
  cases fault with
  | stale type ids => exact keeps_throw (h.refused _ rfl)
  | _ => exact keeps_throw (h.step name _)

end Commit

/-- What a contract has to say about the bodies that the lifecycle writes. -/
structure Contract.Writes (c : Contract) (deployment : Deployment) : Prop
    extends c.Lawful deployment where
  copy : ∀ (type : EntityType) source target, Content.Identified source →
    c.writes (deployment.settings.indexFor type) (Commit.successorBody source target)
  policy : ∀ space document base, Policy.Proper document →
    c.writes deployment.settings.policiesIndex (Policies.savedBody space document base)

namespace Commit

open Work

section

variable (h : c.Writes deployment)

include h

theorem meets_step_write (type : EntityType) (changes : List Change) (space target : Space) :
    (step type.name (write type changes space target)).Meets c deployment := by
  refine meets_step h.toReads type.name fun world hworld => ⟨?_, ?_⟩
  · exact proceeds_write_from h.toLawful hworld fun _ _ _ _ hit _ => h.copy type hit.source target
  · rcases (write type changes space target).runOn deployment world with ⟨_ | _, _⟩ <;> trivial

theorem meets_step_policy (space target : Space) :
    (step policyStep (promotePolicy space target)).Meets c deployment := by
  refine meets_step h.toReads policyStep fun world hworld => ⟨?_, ?_⟩
  · refine proceeds_promotePolicy_from h.toLawful hworld
      fun source _ hproper time current base => ?_
    refine h.policy target _ base ?_
    unfold promotedDocument
    split
    · split <;> exact hproper
    · exact hproper
  · rcases (promotePolicy space target).runOn deployment world with ⟨_ | _, _⟩ <;> trivial

theorem meets_writeAll (plan : EntityType → List Change) (space target : Space)
    (types : List EntityType) (applied : Table Counts) :
    (writeAll plan space target types applied).Meets c deployment := by
  induction types generalizing applied with
  | nil => exact keeps_pure trivial
  | cons type rest ih =>
    rw [writeAll]
    split
    · exact ih applied
    · exact (meets_step_write h type _ space target).bind fun counts _ => ih _

theorem meets_removeAll (plan : EntityType → List Change) (target : Space)
    (types : List EntityType) (applied : Table Counts) :
    (removeAll plan target types applied).Meets c deployment := by
  induction types generalizing applied with
  | nil => exact keeps_pure trivial
  | cons type rest ih =>
    rw [removeAll]
    split
    · exact ih applied
    · have hstep := meets_step h.toReads type.name
        (proceeds_remove h.toLawful type (Change.removals (plan type)) target)
      exact hstep.bind fun count _ => ih _

theorem meets_promote (space : Space) (submitted : ChangeSet) :
    (promote space submitted).Meets c deployment := by
  rw [promote]
  refine (Preview.meets_successor h.toReads space).bind fun target _ => ?_
  refine (Gate.meets_ensure h.toReads space).bind fun _ _ => ?_
  refine (Preview.meets_changesOf h.toReads space).bind fun fresh _ => ?_
  rw [execute_eq]
  refine (meets_writeAll h _ space target _ []).bind fun applied _ => ?_
  have hpolicy : (policyWork submitted.hasPolicyUpdate space target).Meets c deployment := by
    rw [policyWork]
    split
    · exact meets_step_policy h space target
    · exact keeps_pure trivial
  refine hpolicy.bind fun policyUpdated _ => ?_
  exact (meets_removeAll h _ target _ applied).bind fun _ _ => keeps_pure trivial

end

end Commit

/-! ### The operations behind the HTTP interface -/

namespace Endpoint

open Work

/-- An operation with all that it is asked with. -/
inductive Asked where
  | spaces
  | preview (name : String)
  | promote (request : PromotionRequest)
  | policies (name : String) (first size : Int)
  | policy (name : String)
  | updatePolicy (name : String) (update : PolicyUpdate)
  | reorder (name : String) (request : ReorderRequest)
  | rootDecoder (name : String)
  | setRootDecoder (name : String) (update : RootDecoderUpdate)
  | candidates (name : String) (text : Option String) (first size : Int)
  | content (typeName name : String) (first size : Int)
  deriving DecidableEq, Repr

namespace Asked

def work : Asked → Work Json
  | .spaces => pure Endpoint.spaces
  | .preview name => Endpoint.preview name
  | .promote request => Endpoint.promote request
  | .policies name first size => Endpoint.policies name first size
  | .policy name => Endpoint.policy name
  | .updatePolicy name update => Endpoint.updatePolicy name update
  | .reorder name request => Endpoint.reorder name request
  | .rootDecoder name => Endpoint.rootDecoder name
  | .setRootDecoder name update => Endpoint.setRootDecoder name update
  | .candidates name text first size => Endpoint.candidates name text first size
  | .content typeName name first size => Endpoint.content typeName name first size

/-- Whether the names that an operation is asked with are those of a space, and of a type. -/
def Named : Asked → Prop
  | .spaces | .promote _ => True
  | .preview name | .policies name _ _ | .policy name | .updatePolicy name _ | .reorder name _
  | .rootDecoder name | .setRootDecoder name _ | .candidates name _ _ _ =>
    (Space.ofText? name).isSome
  | .content typeName name _ _ =>
    (EntityType.ofName? typeName).isSome ∧ (Space.ofText? name).isSome

end Asked

/-- A name that names nothing is refused in words of its own. -/
theorem meets_space {name : String} (hname : (Space.ofText? name).isSome ∨ ∀ fault, c.fails fault) :
    (Work.ofExcept (space name)).Meets c deployment := by
  rw [space]
  cases hfound : Space.ofText? name with
  | some found => exact keeps_ofExcept trivial
  | none =>
    rw [hfound] at hname
    exact keeps_ofExcept (hname.resolve_left (by decide) _)

theorem meets_entityType {name : String}
    (hname : (EntityType.ofName? name).isSome ∨ ∀ fault, c.fails fault) :
    (Work.ofExcept (entityType name)).Meets c deployment := by
  rw [entityType]
  cases hfound : EntityType.ofName? name with
  | some found => exact keeps_ofExcept trivial
  | none =>
    rw [hfound] at hname
    exact keeps_ofExcept (hname.resolve_left (by decide) _)

section

variable (h : c.Writes deployment)

include h

/-- Every operation meets the contract, if the names are right that it is asked with, or any fault
may come out. -/
theorem Asked.meets_work (asked : Asked)
    (hnamed : asked.Named ∨ ∀ fault, c.fails fault) : asked.work.Meets c deployment := by
  have hreads := h.toReads
  cases asked with
  | spaces => exact keeps_pure trivial
  | preview name =>
    rw [work, Endpoint.preview]
    refine (meets_space hnamed).bind fun space _ => ?_
    refine (Preview.meets_successor hreads space).bind fun _ _ => ?_
    refine (Gate.meets_ensure hreads space).bind fun _ _ => ?_
    exact (Preview.meets_ofSpace hreads space).bind fun found _ => keeps_pure trivial
  | promote request =>
    rw [work, Endpoint.promote]
    exact (Commit.meets_promote h _ _).bind fun report _ => keeps_pure trivial
  | policies name first size =>
    rw [work, Endpoint.policies]
    refine (meets_space hnamed).bind fun space _ => ?_
    exact (Policies.meets_search hreads space rfl none).bind fun page _ => keeps_pure trivial
  | policy name =>
    rw [work, Endpoint.policy]
    refine (meets_space hnamed).bind fun space _ => ?_
    refine (Policies.meets_get? hreads space).bind fun found _ => ?_
    cases found with
    | none => exact keeps_throw (h.refused _ rfl)
    | some record => exact keeps_pure trivial
  | updatePolicy name update =>
    rw [work, Endpoint.updatePolicy]
    refine (meets_space hnamed).bind fun space _ => ?_
    exact (Policies.meets_update h.toLawful h.policy space update).bind fun record _ =>
      keeps_pure trivial
  | reorder name request =>
    rw [work, Endpoint.reorder]
    refine (meets_space hnamed).bind fun space _ => ?_
    exact (Policies.meets_reorder h.toLawful h.policy space _).bind fun record _ =>
      keeps_pure trivial
  | rootDecoder name =>
    rw [work, Endpoint.rootDecoder]
    refine (meets_space hnamed).bind fun space _ => ?_
    exact (Gate.meets_check hreads space).bind fun requirement _ => keeps_pure trivial
  | setRootDecoder name update =>
    rw [work, Endpoint.setRootDecoder]
    refine (meets_space hnamed).bind fun space _ => ?_
    exact (Gate.meets_assign h.toLawful h.policy space _).bind fun record _ => keeps_pure trivial
  | candidates name text first size =>
    rw [work, Endpoint.candidates]
    refine (meets_space hnamed).bind fun space _ => ?_
    exact (Gate.meets_candidates hreads space text first size).bind fun page _ => keeps_pure trivial
  | content typeName name first size =>
    rw [work, Endpoint.content]
    refine (meets_entityType (hnamed.imp_left And.left)).bind fun type _ => ?_
    refine (meets_space (hnamed.imp_left And.right)).bind fun space _ => ?_
    exact (Catalog.meets_search hreads type space rfl).bind fun page _ => keeps_pure trivial

end

end Endpoint

/-! ### Requests -/

namespace Service

open Endpoint

section

variable {world : World} (hworld : c.holds world)

include hworld

/-- What is known of the world is known after what was checked is worked on, or was not let pass. -/
theorem holds_answering {α : Type} (place : String) (checked : Checked α) {work : α → Work Json}
    (hwork : ∀ value, (work value).Meets c deployment) :
    c.holds ((answering place checked work).runOn deployment world).2 := by
  rcases runOn_answering place checked work with ⟨value, -, hrun⟩ | ⟨details, hrun⟩
  · rw [hrun]
    exact (hwork value world hworld).1
  · rw [hrun]
    exact hworld

/-- What is known of the world is known after every request, if any fault may come out. -/
theorem holds_handle (h : c.Writes deployment) (hfails : ∀ fault, c.fails fault)
    (request : Request) : c.holds ((handle request).runOn deployment world).2 := by
  cases hroute : routeOf? request with
  | none =>
    rcases handle_of_no_route hroute with hnone | hnone <;> (rw [hnone]; exact hworld)
  | some route =>
    have hmeets : ∀ asked : Asked, asked.work.Meets c deployment :=
      fun asked => asked.meets_work h (.inr hfails)
    rw [handle_of_route hroute]
    unfold answer
    cases route with
    | spaces => exact holds_answering hworld _ _ fun _ => hmeets .spaces
    | preview name => exact holds_answering hworld _ _ fun _ => hmeets (.preview name)
    | promote => exact holds_answering hworld "body" _ fun request => hmeets (.promote request)
    | policies =>
      exact holds_answering hworld _ _ fun ⟨name, first, size⟩ =>
        hmeets (.policies name first size)
    | policy name => exact holds_answering hworld _ _ fun _ => hmeets (.policy name)
    | updatePolicy name =>
      exact holds_answering hworld _ _ fun update => hmeets (.updatePolicy name update)
    | reorder name => exact holds_answering hworld _ _ fun wanted => hmeets (.reorder name wanted)
    | rootDecoder name => exact holds_answering hworld _ _ fun _ => hmeets (.rootDecoder name)
    | setRootDecoder name =>
      exact holds_answering hworld _ _ fun update => hmeets (.setRootDecoder name update)
    | candidates name =>
      exact holds_answering hworld _ _ fun ⟨first, size⟩ =>
        hmeets (.candidates name _ first size)
    | content type =>
      exact holds_answering hworld _ _ fun ⟨name, first, size⟩ =>
        hmeets (.content type name first size)

end

end Service

end Lifecycle
