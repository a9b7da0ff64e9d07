import Lifecycle.Proofs.Edits
import Lifecycle.Proofs.Isolation
import Lifecycle.Service.Route

/-!
# Requests and the spaces

In contents that are parted among the spaces, a request does one of three things
(`Service.Effect`): it leaves the contents, or it promotes a space, which changes documents of the
successor only, or it edits the policy of `draft`. Which of them it can be is told by its method,
and a request that is refused leaves the contents (`Service.Confined`). Every request is answered,
whichever of its calls are made to fail (`Service.answered`).
-/

namespace Lifecycle

variable {deployment : Deployment} {world : World}

/-! ### Routes -/

namespace Service

/-- The method that a route is asked for with. -/
def Route.method : Route → String
  | .promote => "POST"
  | .updatePolicy _ | .reorder _ | .setRootDecoder _ => "PUT"
  | .spaces | .preview _ | .policies | .policy _ | .rootDecoder _ | .candidates _ | .content _ =>
    "GET"

theorem method_of_mem_routesAt {segments : List String} {entry : String × Route}
    (h : entry ∈ routesAt segments) : entry.1 = entry.2.method := by
  unfold routesAt at h
  repeat' split at h
  all_goals simp only [List.mem_cons, List.not_mem_nil, or_false] at h
  all_goals first
    | (rw [h]; rfl)
    | (rcases h with h | h <;> (rw [h]; rfl))

theorem method_of_mem_routesOf {path : String} {entry : String × Route}
    (h : entry ∈ routesOf path) : entry.1 = entry.2.method := by
  unfold routesOf at h
  split at h
  · exact method_of_mem_routesAt h
  · exact method_of_mem_routesAt h

/-- The route that a request is answered by, if it leads to one. -/
def routeOf? (request : Request) : Option Route :=
  ((routesOf (Text.Percent.decode request.path)).find? fun entry =>
    entry.1 == request.method).map (·.2)

theorem method_of_routeOf? {request : Request} {route : Route} (h : routeOf? request = some route) :
    request.method = route.method := by
  obtain ⟨entry, hfound, rfl⟩ := Option.map_eq_some_iff.mp h
  have hmethod : (entry.1 == request.method) = true := by simpa using List.find?_some hfound
  rw [← beq_iff_eq.mp hmethod]
  exact method_of_mem_routesOf (List.mem_of_find?_eq_some hfound)

theorem handle_of_route {request : Request} {route : Route} (h : routeOf? request = some route) :
    handle request = answer request route := by
  obtain ⟨entry, hfound, rfl⟩ := Option.map_eq_some_iff.mp h
  unfold handle
  split
  · rename_i hnone
    rw [hnone] at hfound
    cases hfound
  · rw [hfound]

theorem handle_of_no_route {request : Request} (h : routeOf? request = none) :
    handle request = pure notFound ∨ handle request = pure methodNotAllowed := by
  rw [routeOf?, Option.map_eq_none_iff] at h
  unfold handle
  split
  · exact .inl rfl
  · rw [h]
    exact .inr rfl

/-! ### Answers -/

/-- The categories of answers to requests that the lifecycle refuses. -/
def refusing : List Category := [.notAllowed, .notFound, .preconditionFailed, .validation]

/-- Whether an answer refuses a request: with one of these categories, or without an envelope. -/
def Answer.refuses (answer : Answer) : Bool :=
  match answer.body.get? "error_type" with
  | some label => refusing.any fun category => label == .text category.name
  | none => true

theorem refuses_failure (message : String) (category : Category) :
    (Answer.ofEnvelope (.failure message category)).refuses = refusing.contains category := by
  cases category <;> rfl

theorem runOn_respond (work : Work Json) :
    (respond work).runOn deployment world =
      (.ok (Envelope.ofOutcome (work.runOn deployment world).1),
        (work.runOn deployment world).2) := by
  rw [respond, Work.runOn_bind, Work.runOn_attempt]
  rfl

/-- What was checked is worked on and the outcome answered in an envelope. -/
theorem runOn_answering_good {α : Type} (place : String) (value : α) (work : α → Work Json) :
    (answering place (.good value) work).runOn deployment world =
      (.ok (Answer.ofEnvelope (Envelope.ofOutcome ((work value).runOn deployment world).1)),
        ((work value).runOn deployment world).2) := by
  show (do
    let envelope ← respond (work value)
    pure (Answer.ofEnvelope envelope) : Work Answer).runOn deployment world = _
  rw [Work.runOn_bind, runOn_respond]
  rfl

/-- What was checked is worked on; what does not pass its check is refused. -/
theorem runOn_answering {α : Type} (place : String) (checked : Checked α) (work : α → Work Json) :
    (∃ value, checked = .good value ∧ (answering place checked work).runOn deployment world =
        (.ok (Answer.ofEnvelope (Envelope.ofOutcome ((work value).runOn deployment world).1)),
          ((work value).runOn deployment world).2)) ∨
      ∃ details, (answering place checked work).runOn deployment world =
        (.ok (Answer.ofDetails details), world) := by
  cases checked with
  | bad details => exact .inr ⟨_, rfl⟩
  | good value => exact .inl ⟨value, rfl, runOn_answering_good place value work⟩

theorem exists_answer (request : Request) (route : Route) (world : World) :
    ∃ found later, (answer request route).runOn deployment world = (.ok found, later) := by
  have hanswers : ∀ {α : Type} (place : String) (checked : Checked α) (work : α → Work Json),
      ∃ found later,
        (answering place checked work).runOn deployment world = (.ok found, later) := by
    intro α place checked work
    rcases runOn_answering place checked work with ⟨value, -, hrun⟩ | ⟨details, hrun⟩
    · exact ⟨_, _, hrun⟩
    · exact ⟨_, _, hrun⟩
  unfold answer
  cases route <;> exact hanswers _ _ _

/-! ### Requests that read -/

theorem reads_respond {work : Work Json} (h : work.Reads deployment) :
    (respond work).Reads deployment := by
  intro world
  rw [runOn_respond]
  exact h world

theorem reads_answering {α : Type} (place : String) (checked : Checked α) {work : α → Work Json}
    (h : ∀ value, (work value).Reads deployment) :
    (answering place checked work).Reads deployment := by
  rw [answering]
  split
  · exact Work.reads_pure _
  · exact (reads_respond (h _)).bind fun _ => Work.reads_pure _

end Service

namespace Endpoint

open Work

variable (h : deployment.Standard)

include h

theorem reads_preview (name : String) : (preview name).Reads deployment := by
  rw [preview]
  refine (reads_ofExcept _).bind fun space => (reads_ofExcept _).bind fun target => ?_
  refine (Gate.reads_ensure h space).bind fun _ => ?_
  exact (Preview.reads_ofSpace h space).bind fun found => reads_pure _

theorem reads_policies (name : String) (first size : Int) :
    (policies name first size).Reads deployment := by
  rw [policies]
  refine (reads_ofExcept _).bind fun space => ?_
  exact (Policies.reads_search h space _ none).bind fun page => reads_pure _

theorem reads_policy (name : String) : (policy name).Reads deployment := by
  rw [policy]
  refine (reads_ofExcept _).bind fun space => (Policies.reads_get? h space).bind fun found => ?_
  cases found with
  | none => exact reads_throw _
  | some record => exact reads_pure _

theorem reads_rootDecoder (name : String) : (rootDecoder name).Reads deployment := by
  rw [rootDecoder]
  refine (reads_ofExcept _).bind fun space => ?_
  exact (Gate.reads_check h space).bind fun requirement => reads_pure _

theorem reads_candidates (name : String) (text : Option String) (first size : Int) :
    (candidates name text first size).Reads deployment := by
  rw [candidates]
  refine (reads_ofExcept _).bind fun space => ?_
  exact (Gate.reads_candidates h space text first size).bind fun page => reads_pure _

theorem reads_content (typeName name : String) (first size : Int) :
    (content typeName name first size).Reads deployment := by
  rw [content]
  refine (reads_ofExcept _).bind fun type => (reads_ofExcept _).bind fun space => ?_
  exact (Catalog.reads_search h type space _).bind fun page => reads_pure _

end Endpoint

namespace Service

/-- All that is asked for with `GET` reads. -/
theorem reads_answer (h : deployment.Standard) (request : Request) {route : Route}
    (hroute : route.method = "GET") : (answer request route).Reads deployment := by
  unfold answer
  cases route with
  | spaces => exact reads_answering _ _ fun _ => Work.reads_pure _
  | preview name => exact reads_answering _ _ fun _ => Endpoint.reads_preview h name
  | policies =>
    exact reads_answering _ _ fun ⟨space, first, size⟩ => Endpoint.reads_policies h space first size
  | policy name => exact reads_answering _ _ fun _ => Endpoint.reads_policy h name
  | rootDecoder name => exact reads_answering _ _ fun _ => Endpoint.reads_rootDecoder h name
  | candidates name =>
    exact reads_answering _ _ fun ⟨first, size⟩ => Endpoint.reads_candidates h name _ first size
  | content name =>
    exact reads_answering _ _ fun ⟨space, first, size⟩ =>
      Endpoint.reads_content h name space first size
  | promote | updatePolicy _ | reorder _ | setRootDecoder _ =>
    exact absurd hroute (by simp [Route.method])

end Service

/-! ### Requests that edit -/

namespace Endpoint

open Work Policies

/-- An edit of the policy of a space that is named, with the new policy as its answer. -/
theorem saves_edit (hworld : world.Probed) (name : String) {edit : Space → Work PolicyRecord}
    (hedit : ∀ space, ∀ later : World, later.Probed →
      (edit space).Saves deployment later (IsEdit later.memory)) :
    (do
      let space ← Work.ofExcept (space name)
      let record ← edit space
      pure record.toJson : Work Json).Saves deployment world (IsEdit world.memory) := by
  refine (reads_ofExcept _).bind_saves fun space later _ hlater => ?_
  rw [← hlater.memory_eq]
  exact (hedit space later (hlater.probed hworld)).bind_pure _

section

variable (h : deployment.Standard) (hworld : world.Probed)

include h hworld

theorem saves_updatePolicy (name : String) (update : PolicyUpdate) :
    (updatePolicy name update).Saves deployment world (IsEdit world.memory) := by
  rw [updatePolicy]
  exact saves_edit hworld name fun space _ hlater => saves_update h hlater space update

theorem saves_reorder (name : String) (request : ReorderRequest) :
    (reorder name request).Saves deployment world (IsEdit world.memory) := by
  rw [reorder]
  exact saves_edit hworld name fun space _ hlater =>
    Policies.saves_reorder h hlater space request.integrations

theorem saves_setRootDecoder (name : String) (update : RootDecoderUpdate) :
    (setRootDecoder name update).Saves deployment world (IsEdit world.memory) := by
  rw [setRootDecoder]
  exact saves_edit hworld name fun space _ hlater =>
    Gate.saves_assign h hlater space update.rootDecoder

end

end Endpoint

/-! ### What a request does -/

/-- A world whose calls fail by some rules. -/
def World.under (world : World) (rules : List FailureRule) : World := { world with rules }

theorem World.Standing.under (h : world.Standing) (rules : List FailureRule) :
    (world.under rules).Standing :=
  ⟨h.mapped, h.resolved⟩

namespace Service

/-- Whether a request asks for the promotion of a space. -/
def Request.Promotes (request : Request) (space : Space) : Prop :=
  routeOf? request = some .promote ∧
    ∃ changes, checkedBody request PromotionRequest.check = .good ⟨space, changes⟩

/-- What a request can do to the contents: nothing; or it promotes a space and keeps all but the
documents of the successor; or it edits the policy of `draft` and puts a new body of `draft` in
place of the document that the policy is read from. -/
inductive Effect (deployment : Deployment) (request : Request) (world later : World) : Prop where
  | unchanged (memory : later.memory = world.memory)
  | promoted (space target : Space) (asked : request.Promotes space)
      (next : space.next? = some target) (kept : world.memory.Kept later.memory target)
  | edited (method : request.method = "PUT") (record : PolicyRecord) (body : Table Json)
      (read : World)
      (found : (Policies.get? .draft).runOn deployment (world.under []) = (.ok (some record), read))
      (own : ∀ space, Scope.belongs space body = true ↔ space = .draft)
      (memory : later.memory = world.memory.put ".cti-policies" record.docId body)

/-- A request that is answered has had one of these effects, none if it only reads or is refused. -/
structure Confined (deployment : Deployment) (request : Request) (world : World) (answer : Answer)
    (later : World) : Prop where
  effect : Effect deployment request world later
  reading : request.method = "GET" →
    later.memory = world.memory ∧ later.written = world.written
  refused : answer.refuses = true → later.memory = world.memory

/-- An outcome whose answer refuses a request is a fault of one of those categories. -/
theorem exists_fault_of_refuses {outcome : Except Fault Json}
    (h : (Answer.ofEnvelope (Envelope.ofOutcome outcome)).refuses = true) :
    ∃ fault, outcome = .error fault ∧ refusing.contains fault.category = true := by
  cases outcome with
  | ok value => exact absurd (show false = true from h) Bool.false_ne_true
  | error fault =>
    rw [Envelope.ofOutcome, Envelope.ofFault, refuses_failure] at h
    exact ⟨fault, rfl, h⟩

/-- An answer, and what the request that it answers has done. -/
def Answered (deployment : Deployment) (request : Request) (world : World) (work : Work Answer) :
    Prop :=
  ∃ answer later done failed, work.runOn deployment world = (.ok answer, later) ∧
    world.After done failed later ∧ Confined deployment request world answer later

/-- A request that is answered without a look at the contents. -/
theorem answered_unchanged {request : Request} {work : Work Answer} {answer : Answer}
    (hrun : work.runOn deployment world = (.ok answer, world)) :
    Answered deployment request world work :=
  ⟨answer, world, [], none, hrun, .refl world, .unchanged rfl, fun _ => ⟨rfl, rfl⟩, fun _ => rfl⟩

/-- Work that only reads, of a request that it answers. -/
theorem answered_of_reads {request : Request} {work : Work Answer} (h : work.Reads deployment)
    {answer : Answer} {later : World} (hrun : work.runOn deployment world = (.ok answer, later)) :
    Answered deployment request world work := by
  have hafter := h world
  rw [hrun] at hafter
  refine ⟨answer, later, [], none, hrun, hafter, .unchanged hafter.memory, fun _ => ?_,
    fun _ => hafter.memory⟩
  exact ⟨hafter.memory, by rw [hafter.written]; simp⟩

section

variable (h : deployment.Standard) (hworld : world.Standing) (hparted : world.memory.Parted)

include h hworld hparted

/-- A call that saves an edited policy is about the document that the policy is read from, and puts
a body of `draft` there. -/
theorem exists_of_isEdit {call : Call} (hcall : Policies.IsEdit world.memory call) :
    ∃ record body read, (Policies.get? .draft).runOn deployment (world.under []) =
        (.ok (some record), read) ∧
      (∀ space, Scope.belongs space body = true ↔ space = .draft) ∧
      call = .upsert ".cti-policies" record.docId body := by
  obtain ⟨record, document, time, hfound, rfl⟩ := hcall
  have hprobed : (world.under []).Probed := hworld.probed
  have hget : (Policies.get? .draft).Performs deployment (world.under []) [] _ :=
    Policies.performs_found h hprobed .draft
  have hmemory : (world.under []).memory = world.memory := rfl
  rw [hmemory, hfound] at hget
  obtain ⟨read, hrun, -⟩ := hget.run_eq rfl
  have hstays : (Policies.saveCall .draft document (some record) none time).StaysIn world.memory
      .draft := Policies.staysIn_saveCall hparted hworld.mapped hfound nofun document time
  obtain ⟨-, -, hbody⟩ := hstays
  exact ⟨record, _, read, hrun, hbody, rfl⟩

/-- An edit, as a request with a checked body. -/
theorem answered_edit {α : Type} {request : Request} (hmethod : request.method = "PUT")
    (place : String) (checked : Checked α) {work : α → Work Json}
    (hsaves : ∀ value, (work value).Saves deployment world (Policies.IsEdit world.memory)) :
    Answered deployment request world (answering place checked work) := by
  have hnot : request.method = "GET" → False := by
    rw [hmethod]
    decide
  rcases runOn_answering place checked work with ⟨value, -, hrun⟩ | ⟨details, hrun⟩
  · cases hsaves value with
    | saved result later call run asked after =>
      rw [run] at hrun
      obtain ⟨record, body, read, hfound, hbody, rfl⟩ := exists_of_isEdit h hworld hparted asked
      refine ⟨_, later, _, none, hrun, after, ?_, fun hget => (hnot hget).elim, fun hrefuses => ?_⟩
      · exact .edited hmethod record body read hfound hbody after.memory
      · -- what was saved is answered with a value, which refuses nothing
        obtain ⟨fault, hfault, -⟩ := exists_fault_of_refuses hrefuses
        cases hfault
    | left fault later failed run after =>
      rw [run] at hrun
      exact ⟨_, later, [], failed, hrun, after, .unchanged after.memory,
        fun hget => (hnot hget).elim, fun _ => after.memory⟩
  · exact answered_unchanged hrun

/-- A promotion, as a request with a checked body. -/
theorem answered_promote {request : Request} (hroute : routeOf? request = some .promote) :
    Answered deployment request world (answer request .promote) := by
  have hnot : request.method = "GET" → False := by
    rw [method_of_routeOf? hroute]
    decide
  rcases runOn_answering "body" (checkedBody request PromotionRequest.check) Endpoint.promote with
    ⟨promotion, hgood, hrun⟩ | ⟨details, hrun⟩
  · obtain ⟨outcome, later, done, failed, hpromote, hafter, hkept⟩ :=
      Commit.kept_of_promote h hworld hparted promotion.space promotion.changes
    have hwhole : (Endpoint.promote promotion).runOn deployment world =
        (outcome.map Commit.Report.toJson, later) := by
      rw [Endpoint.promote, Work.runOn_bind, hpromote]
      cases outcome <;> rfl
    rw [hwhole] at hrun
    refine ⟨_, later, done, failed, hrun, hafter, ?_, fun hget => (hnot hget).elim,
      fun hrefuses => ?_⟩
    · rcases hkept with hsame | ⟨target, hnext, hkept, -⟩
      · exact .unchanged hsame
      · exact .promoted promotion.space target ⟨hroute, promotion.changes, hgood⟩ hnext hkept
    · obtain ⟨fault, hfault, hcategory⟩ := exists_fault_of_refuses hrefuses
      rcases hkept with hsame | ⟨target, -, -, hcategories⟩
      · exact hsame
      · -- a fault of a commit is none that refuses the request
        cases outcome with
        | ok report => cases hfault
        | error cause =>
          cases hfault
          rcases hcategories fault rfl with hstale | hbackend
          · rw [hstale] at hcategory
            exact absurd hcategory (by decide)
          · rw [hbackend] at hcategory
            exact absurd hcategory (by decide)
  · exact answered_unchanged hrun

/-- Every request is answered, and has one of the effects. -/
theorem answered (request : Request) :
    Answered deployment request world (handle request) := by
  cases hroute : routeOf? request with
  | none =>
    rcases handle_of_no_route hroute with hnone | hnone
    · rw [hnone]
      exact answered_unchanged rfl
    · rw [hnone]
      exact answered_unchanged rfl
  | some route =>
    have hmethod := method_of_routeOf? hroute
    rw [handle_of_route hroute]
    -- a route that is not asked for with `GET` is the promotion or one of the three edits
    by_cases hget : route.method = "GET"
    · obtain ⟨found, later, hrun⟩ := exists_answer request route world
      exact answered_of_reads (reads_answer h request hget) hrun
    · cases route with
      | promote => exact answered_promote h hworld hparted hroute
      | updatePolicy name =>
        exact answered_edit h hworld hparted hmethod _ _ fun update =>
          Endpoint.saves_updatePolicy h hworld.probed name update
      | reorder name =>
        exact answered_edit h hworld hparted hmethod _ _ fun wanted =>
          Endpoint.saves_reorder h hworld.probed name wanted
      | setRootDecoder name =>
        exact answered_edit h hworld hparted hmethod _ _ fun update =>
          Endpoint.saves_setRootDecoder h hworld.probed name update
      | _ => exact absurd rfl hget

end

end Service

end Lifecycle
