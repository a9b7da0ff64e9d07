import Lifecycle.Proofs.Operations

/-!
# Whose fault it is

What goes wrong behind the service is to be told to a client as a failure behind the service, and
not as a fault of the request. On a cluster this is so but for answers that are *misread*
(`Reply.Misread`): the body of an answer without a failure is no JSON, a hit in it or its total has
not the shape it should have, or a document in it is no policy, or no document. These come out as
values that were refused, and are told as faults of the request.

All that an operation can end in is a refusal by the rules of the lifecycle, or was raised by a call
to the store or the ledger, or by reading what it answers (`Fault.Raised`), as follows from a
contract about the replies (`Contract.hearing_writes`). What was raised is a failure behind the
service, unless it was misread (`Fault.Raised.toldOf`), which gives the main statement
(`Endpoint.validation_iff_misread`).
-/

namespace Lifecycle

variable {deployment : Deployment} {replies : List Reply} {reply : Reply} {fault : Fault}

/-! ### Replies -/

namespace Reply

/-- A reply that a call can get: one of some, or none is left. -/
def Heard (replies : List Reply) (reply : Reply) : Prop := reply ∈ replies ∨ reply = exhausted

/-- A hit on the page that a reply of the store holds. -/
def Shows (reply : Reply) (hit : Hit) : Prop :=
  ∃ answer page, Cluster.replyContents reply = .ok (some answer) ∧ Cluster.page answer = .ok page ∧
    hit ∈ page.hits

/-- The faults of reading an answer of the store that is no failure, but has not the shape it should
have. -/
inductive Misread : Reply → Fault → Prop
  /-- The body is no JSON. -/
  | body {status : Int} {body : String} {cause : ReadFault} (fine : status ≠ 404 ∧ status < 400)
    (given : body.isEmpty = false) (read : Json.read body = .error cause) :
    Misread (.answer status body) (.unreadable cause)
  /-- The source of a hit is no object. -/
  | hit {reply : Reply} {answer : Json} {details : List Detail}
    (read : Cluster.replyContents reply = .ok (some answer))
    (page : Cluster.page answer = .error (.misfit "SearchHit" details)) :
    Misread reply (.misfit "SearchHit" details)
  /-- The total is no number. -/
  | total {reply : Reply} {answer : Json} {message : String}
    (read : Cluster.replyContents reply = .ok (some answer))
    (page : Cluster.page answer = .error (.refused message)) : Misread reply (.refused message)
  /-- The document of a hit is no policy. -/
  | policy {reply : Reply} {hit : Hit} {details : List Detail} (shows : reply.Shows hit)
    (check : Policy.check (Content.documentValue hit.source) = .bad details) :
    Misread reply (.misfit "Policy" details)
  /-- The document of a hit is no object. -/
  | item {reply : Reply} {hit : Hit} (shows : reply.Shows hit)
    (value : (Content.documentValue hit.source).fields? = none) :
    Misread reply (.misfit "CatalogItem" [⟨.notObject, [.field "document"]⟩])

theorem Misread.category (h : reply.Misread fault) : fault.category = .validation := by
  cases h <;> rfl

end Reply

/-- What a call to the store or to the ledger, or the reading of what it answers, can end in, given
the replies that there are. A step of a commit names whatever comes out of it. -/
inductive Fault.Raised (replies : List Reply) : Fault → Prop
  | contents {reply : Reply} {fault : Fault} (heard : reply.Heard replies)
    (read : Cluster.replyContents reply = .error fault) : Raised replies fault
  | page {reply : Reply} {answer : Json} {fault : Fault} (heard : reply.Heard replies)
    (read : Cluster.replyContents reply = .ok (some answer))
    (page : Cluster.page answer = .error fault) : Raised replies fault
  | hit {reply : Reply} {hit : Hit} {fault : Fault} (heard : reply.Heard replies)
    (shows : reply.Shows hit) (unread : hit.Unread fault) : Raised replies fault
  | rejected {reply : Reply} (heard : reply.Heard replies)
    (read : Cluster.replyContents reply = .ok none) (message : String) :
    Raised replies (.store message (some 404))
  | told {reply : Reply} {fault : Fault} (heard : reply.Heard replies)
    (read : Ledger.replyChanges reply = .error fault) : Raised replies fault
  | step (name : String) (cause : Fault) : Raised replies (.step name cause)

/-! ### Reading answers -/

/-- Faults that are told as failures behind the service. -/
def Fault.IsBackend (fault : Fault) : Prop := fault.category = .backendFailure

namespace Cluster

theorem ends_reason (status : Int) (body : String) :
    Ends (fun _ => True) Fault.IsBackend (reason status body) := by
  rw [reason]
  split
  · trivial
  · split <;> trivial
  · rfl

theorem ends_part (value : Json) (key : String) :
    Ends (fun _ => True) Fault.IsBackend (part value key) := by
  unfold part
  split
  · trivial
  · rfl

theorem ends_itemsOf (value : Json) :
    Ends (fun _ => True) Fault.IsBackend (Query.itemsOf value) := by
  cases value <;> trivial

theorem ends_givenItems (value : Json) :
    Ends (fun _ => True) Fault.IsBackend (givenItems value) := by
  rw [givenItems]
  split
  · exact ends_itemsOf value
  · trivial

/-- The faults of a page: failures behind the service, a hit without an object as its source, and a
total that is no number. -/
def IsPageFault (fault : Fault) : Prop :=
  fault.IsBackend ∨ (∃ details, fault = .misfit "SearchHit" details) ∨
    ∃ message, fault = .refused message

theorem ends_hit (value : Json) : Ends (fun _ => True) IsPageFault (hit value) := by
  have hpart : ∀ key, Ends (fun _ => True) IsPageFault (part value key) :=
    fun key => (ends_part value key).mono (fun _ => id) fun _ => .inl
  rw [hit]
  refine (hpart "_id").bind fun id _ => (hpart "_source").bind fun source _ => ?_
  split
  · trivial
  · trivial
  · exact .inr (.inl ⟨_, rfl⟩)

theorem ends_count (value : Json) : Ends (fun _ => True) IsPageFault (count value) := by
  unfold count
  repeat' split
  all_goals first | exact True.intro | exact .inl rfl | exact .inr (.inr ⟨_, rfl⟩)

theorem ends_total (value : Json) (here : Nat) :
    Ends (fun _ => True) IsPageFault (total value here) := by
  unfold total
  repeat' split
  all_goals first | trivial | exact ends_count _

theorem ends_page (answer : Json) : Ends (fun _ => True) IsPageFault (page answer) := by
  have hpart : ∀ value key, Ends (fun _ => True) IsPageFault (part value key) :=
    fun value key => (ends_part value key).mono (fun _ => id) fun _ => .inl
  rw [page]
  refine (hpart _ _).bind fun found _ => ?_
  refine (hpart _ _).bind fun all _ => (hpart _ _).bind fun given _ => ?_
  refine ((ends_givenItems given).mono (fun _ => id) fun _ => .inl).bind fun items _ => ?_
  refine (ends_mapM fun item _ => ends_hit item).bind fun hits _ => ?_
  exact (ends_total all _).bind fun _ _ => trivial

end Cluster

theorem Content.ends_documentFields (body : Table Json) :
    Ends (fun _ => True) Fault.IsBackend (documentFields body) := by
  rw [documentFields]
  split
  · trivial
  · rfl

theorem Content.ends_entityId? (body : Table Json) :
    Ends (fun _ => True) Fault.IsBackend (entityId? body) :=
  (ends_documentFields body).bind fun _ _ => trivial

theorem Policies.ends_addIntegration (entries : List (Json × Table Json)) (hit : Hit) :
    Ends (fun _ => True) Fault.IsBackend (addIntegration entries hit) := by
  rw [addIntegration]
  refine (Content.ends_entityId? hit.source).bind fun id _ => ?_
  repeat' split
  all_goals trivial

theorem Catalog.ends_addTitles (type : EntityType) (wanted : List String)
    (titles : Table (List Json)) (hit : Hit) :
    Ends (fun _ => True) Fault.IsBackend (addTitles type wanted titles hit) := by
  have hfold : ∀ title (ids : List Json), Ends (fun _ => True) Fault.IsBackend
      (ids.foldlM (addTitle wanted title) titles) := by
    intro title ids
    refine ends_foldlM (fun id _ found _ => ?_) trivial
    cases id <;> trivial
  rw [addTitles]
  refine (Content.ends_documentFields hit.source).bind fun fields _ => ?_
  dsimp only
  split
  · exact (Cluster.ends_itemsOf _).bind fun ids _ => hfold _ ids
  · exact hfold .null []

/-! ### How what was raised is told -/

/-- A fault is a failure behind the service, or an answer was misread. -/
def Fault.ToldOf (replies : List Reply) (fault : Fault) : Prop :=
  fault.IsBackend ∨ ∃ reply ∈ replies, reply.Misread fault

/-- A reply that is an answer is not missing. -/
theorem Reply.Heard.mem {status : Int} {body : String} (h : Heard replies (.answer status body)) :
    .answer status body ∈ replies :=
  h.resolve_right fun heq => by cases heq

/-- What a reply holds is held by an answer. -/
theorem Reply.Heard.mem_of_contents {found : Option Json} (h : reply.Heard replies)
    (hread : Cluster.replyContents reply = .ok found) : reply ∈ replies := by
  refine h.resolve_right ?_
  rintro rfl
  cases hread

/-- Reading a document that a reply shows ends in a failure behind the service, unless the document
was to be that of a policy or of an entity of the catalog, and is not. -/
theorem toldOf_unread {hit : Hit} (hmem : reply ∈ replies) (hshows : reply.Shows hit)
    (hunread : hit.Unread fault) : fault.ToldOf replies := by
  cases hunread with
  | document read => exact .inl ((Content.ends_documentFields hit.source).of_error read)
  | integration read => exact .inl ((Policies.ends_addIntegration _ hit).of_error read)
  | references read => exact .inl ((Catalog.ends_addTitles _ _ _ hit).of_error read)
  | policy read =>
    rw [Policies.toRecord] at read
    cases hcheck : Policy.check (Content.documentValue hit.source) with
    | good policy =>
      rw [hcheck] at read
      cases read
    | bad details =>
      rw [hcheck] at read
      cases read
      exact .inr ⟨reply, hmem, .policy hshows hcheck⟩
  | item read =>
    rw [Catalog.toItem] at read
    cases hvalue : Content.documentValue hit.source with
    | object fields =>
      rw [hvalue] at read
      cases read
    | _ =>
      rw [hvalue] at read
      cases read
      exact .inr ⟨reply, hmem, .item hshows (by rw [hvalue]; rfl)⟩

section

variable (htransport : ∀ fault, .broken fault ∈ replies → fault.isTransport = true)
  (hheard : reply.Heard replies)

include htransport hheard

theorem isTransport_of_heard {cause : Fault} (hreply : reply = .broken cause) :
    cause.isTransport = true := by
  subst hreply
  rcases hheard with hmem | heq
  · exact htransport cause hmem
  · cases heq
    rfl

theorem toldOf_contents (hread : Cluster.replyContents reply = .error fault) :
    fault.ToldOf replies := by
  cases reply with
  | broken cause =>
    rw [Cluster.replyContents, if_pos (isTransport_of_heard htransport hheard rfl)] at hread
    cases hread
    exact .inl rfl
  | answer status body =>
    rw [Cluster.replyContents, Cluster.contents] at hread
    split at hread
    · cases hread
    · rename_i hfound
      split at hread
      · have hreason := Cluster.ends_reason status body
        split at hread
        · cases hread
          exact .inl rfl
        · rename_i cause hcause
          cases hread
          rw [hcause] at hreason
          exact .inl hreason
      · rename_i hfine
        split at hread
        · cases hread
        -- the one misreading here: a body that is given, without a failure, and is no JSON
        · rename_i hgiven
          split at hread
          · cases hread
          · cases hread
          · rename_i cause hbody
            cases hread
            refine .inr ⟨_, hheard.mem, .body ⟨?_, ?_⟩ ?_ hbody⟩
            · simpa using hfound
            · omega
            · simpa using hgiven

theorem toldOf_told (hread : Ledger.replyChanges reply = .error fault) : fault.ToldOf replies := by
  cases reply with
  | broken cause =>
    rw [Ledger.replyChanges, if_pos (isTransport_of_heard htransport hheard rfl)] at hread
    cases hread
    exact .inl rfl
  | answer status body =>
    rw [Ledger.replyChanges] at hread
    split at hread
    · cases hread
    · split at hread
      · cases hread
        exact .inl rfl
      · split at hread
        · rw [Ledger.changesIn] at hread
          split at hread
          · cases hread
          · cases hread
            exact .inl rfl
        · cases hread
          exact .inl rfl

end

/-- What was raised is a failure behind the service, unless an answer was misread. -/
theorem Fault.Raised.toldOf
    (htransport : ∀ fault, .broken fault ∈ replies → fault.isTransport = true)
    (h : fault.Raised replies) : fault.ToldOf replies := by
  cases h with
  | contents heard read => exact toldOf_contents htransport heard read
  | page heard read page =>
    have hmem := heard.mem_of_contents read
    rcases (Cluster.ends_page _).of_error page with hbackend | ⟨details, rfl⟩ | ⟨message, rfl⟩
    · exact .inl hbackend
    · exact .inr ⟨_, hmem, .hit read page⟩
    · exact .inr ⟨_, hmem, .total read page⟩
  | hit heard shows unread =>
    obtain ⟨answer, page, hread, -⟩ := id shows
    exact toldOf_unread (heard.mem_of_contents hread) shows unread
  | rejected heard read message => exact .inl rfl
  | told heard read => exact toldOf_told htransport heard read
  | step name cause => exact .inl rfl

/-! ### The contract -/

/-- The replies that are left are the last ones of some, what the store shows is on their pages, and
what comes out is a refusal or was raised. -/
def Contract.hearing (replies : List Reply) : Contract where
  holds world := world.replies <:+ replies
  shown page := ∀ hit ∈ page.hits, ∃ reply : Reply, reply.Heard replies ∧ reply.Shows hit
  writes _ _ := True
  fails fault := fault.isRefusal = true ∨ fault.Raised replies

namespace Contract

open Work

variable (replies)

theorem hearing_exchange (request : Exchange) :
    (Work.exchange request).Meets (hearing replies) deployment fun reply =>
      reply.Heard replies := by
  intro world hworld
  have hrun : (Work.exchange request).runOn deployment world =
      (.ok (Reply.next world.replies).1,
        { world with
          replies := (Reply.next world.replies).2, exchanges := world.exchanges ++ [request] }) :=
    rfl
  rw [hrun]
  cases hreplies : world.replies with
  | nil => exact ⟨List.nil_suffix, .inr rfl⟩
  | cons reply rest =>
    have hsuffix : reply :: rest <:+ replies := hreplies ▸ hworld
    exact ⟨(List.suffix_cons reply rest).trans hsuffix,
      .inl (hsuffix.subset List.mem_cons_self)⟩

/-- A request to the cluster has what a reply holds. -/
theorem hearing_request (method : String) (segments : List String) (json params : Json) :
    (Cluster.request method segments json params).Meets (hearing replies) deployment fun found =>
      ∃ reply, reply.Heard replies ∧ Cluster.replyContents reply = .ok found := by
  rw [Cluster.request]
  refine keeps_read.bind fun found _ => ?_
  refine (hearing_exchange replies _).bind fun reply hheard => keeps_ofExcept ?_
  cases hread : Cluster.replyContents reply with
  | ok contents => exact ⟨reply, hheard, hread⟩
  | error fault => exact .inr (.contents hheard hread)

variable (hbackend : deployment.backend = .cluster)

include hbackend

theorem hearing_search (index : String) (asked : Search) :
    (Store.search index asked).Meets (hearing replies) deployment (hearing replies).shown := by
  rw [Store.search]
  refine keeps_read.bind fun found hfound => ?_
  rw [hfound, hbackend]
  refine (hearing_request replies _ _ _ _).bind fun answer hanswer => ?_
  obtain ⟨reply, hheard, hread⟩ := hanswer
  cases answer with
  | none => exact keeps_pure fun hit hhit => absurd hhit List.not_mem_nil
  | some answer =>
    refine keeps_ofExcept ?_
    cases hpage : Cluster.page answer with
    | ok page => exact fun hit hhit => ⟨reply, hheard, answer, page, hread, hpage, hhit⟩
    | error fault => exact .inr (.page hheard hread hpage)

theorem hearing_fieldCapabilities (index : String) (fields : List String) :
    (Store.fieldCapabilities index fields).Proceeds (hearing replies) deployment := by
  rw [Store.fieldCapabilities]
  refine keeps_read.bind fun found hfound => ?_
  rw [hfound, hbackend]
  refine (hearing_request replies _ _ _ _).proceeds.bind fun answer _ => ?_
  cases answer with
  | none => exact keeps_throw trivial
  | some answer => exact keeps_ofExcept (by cases Cluster.part answer "fields" <;> trivial)

theorem hearing_upsert (index id : String) (body : Table Json) :
    (Store.upsert index id body).Meets (hearing replies) deployment := by
  rw [Store.upsert]
  refine keeps_read.bind fun found hfound => ?_
  rw [hfound, hbackend]
  refine (hearing_request replies _ _ _ _).bind fun answer hanswer => ?_
  obtain ⟨reply, hheard, hread⟩ := hanswer
  cases answer with
  | none => exact keeps_throw (.inr (.rejected hheard hread _))
  | some answer => exact keeps_pure trivial

theorem hearing_delete (index id : String) :
    (Store.delete index id).Meets (hearing replies) deployment := by
  rw [Store.delete]
  refine keeps_read.bind fun found hfound => ?_
  rw [hfound, hbackend]
  exact (hearing_request replies _ _ _ _).bind fun _ _ => keeps_pure trivial

omit hbackend in
theorem hearing_told (space : Space) :
    (Ledger.told space).Meets (hearing replies) deployment := by
  rw [Ledger.told]
  refine keeps_read.bind fun found _ => ?_
  refine (hearing_exchange replies _).bind fun reply hheard => keeps_ofExcept ?_
  cases hread : Ledger.replyChanges reply with
  | ok changes => trivial
  | error fault => exact .inr (.told hheard hread)

/-- On a cluster, and with a ledger, all that comes out is a refusal or was raised. -/
theorem hearing_writes (hfixed : deployment.fixedChanges = none) :
    (hearing replies).Writes deployment where
  search := hearing_search replies hbackend
  probe := hearing_fieldCapabilities replies hbackend
  told := hearing_told replies
  fixed value hvalue := by
    rw [hfixed] at hvalue
    cases hvalue
  kept _ _ _ hworld := hworld
  clock _ _ hworld := hworld
  unread page hpage hit hhit fault hfault := by
    obtain ⟨reply, hheard, hshows⟩ := hpage hit hhit
    exact .inr (.hit hheard hshows hfault)
  refused _ hrefused := .inl hrefused
  step name cause := .inr (.step name cause)
  upsert index id body _ := hearing_upsert replies hbackend index id body
  delete := hearing_delete replies hbackend
  copy _ _ _ _ := trivial
  policy _ _ _ _ := trivial

end Contract

/-! ### What is answered -/

namespace Endpoint

/-- Failures behind the service are told as such, but for misread answers. On a cluster, with either
ledger, whatever replies there are: an operation that is asked with names that are known ends in its
result or in a fault, and is answered with it. Each fault is a refusal by the rules of the
lifecycle, or was raised by a call or by reading an answer. It is told as a fault of the request
exactly if it is the misreading of an answer; what was raised else is told as a failure behind the
service. -/
theorem validation_iff_misread (hbackend : deployment.backend = .cluster)
    (hfixed : deployment.fixedChanges = none) {world : World}
    (htransport : ∀ fault, .broken fault ∈ world.replies → fault.isTransport = true)
    {asked : Asked} (hnamed : asked.Named) :
    ∃ outcome later, asked.work.runOn deployment world = (outcome, later) ∧
      (respond asked.work).runOn deployment world = (.ok (Envelope.ofOutcome outcome), later) ∧
        ∀ fault, outcome = .error fault →
          (fault.isRefusal = true ∨ fault.Raised world.replies) ∧
          (fault.category = .validation ↔ ∃ reply ∈ world.replies, reply.Misread fault) ∧
          (fault.Raised world.replies → (∀ reply ∈ world.replies, ¬ reply.Misread fault) →
            Envelope.ofFault fault = .failure fault.message .backendFailure ∧
              (Envelope.ofFault fault).status = 502) := by
  -- all replies are left at the start, so that what is heard is heard of them
  have hmeets := asked.meets_work (Contract.hearing_writes world.replies hbackend hfixed)
    (.inl hnamed) world (List.suffix_refl _)
  refine ⟨_, _, rfl, Service.runOn_respond asked.work, fun fault hfault => ?_⟩
  have hfails : fault.isRefusal = true ∨ fault.Raised world.replies := hmeets.2.of_error hfault
  refine ⟨hfails, ⟨fun hcategory => ?_, ?_⟩, fun hraised hnone => ?_⟩
  · rcases hfails with hrefusal | hraised
    · rw [Fault.isRefusal, hcategory] at hrefusal
      cases hrefusal
    · rcases hraised.toldOf htransport with hbackend | hmisread
      · rw [Fault.IsBackend, hcategory] at hbackend
        cases hbackend
      · exact hmisread
  · rintro ⟨reply, -, hmisread⟩
    exact hmisread.category
  · rcases hraised.toldOf htransport with hbackend | ⟨reply, hmem, hmisread⟩
    · rw [Fault.IsBackend] at hbackend
      rw [Envelope.ofFault, hbackend]
      exact ⟨rfl, rfl⟩
    · exact absurd hmisread (hnone reply hmem)

/-- A cluster that answers the probe of an index, and then the search in it with a text that is no
JSON. -/
def unreadablePage : World := { replies := [.answer 200 "{}", .answer 200 "not json"] }

/-- What is wrong with the text. -/
def notJson : Fault := .unreadable ⟨.expectingValue, 0, 1, 1⟩

/-- Who asks for the policy of `draft` is told that the request is at fault. -/
theorem validation_unreadablePage :
    ∃ later, (respond (Asked.policy "draft").work).runOn { backend := .cluster } unreadablePage =
        (.ok (.failure notJson.message .validation), later) ∧
      (Envelope.ofFault notJson).status = 422 ∧
        ∃ reply ∈ unreadablePage.replies, reply.Misread notJson := by
  have htransport : ∀ fault, .broken fault ∈ unreadablePage.replies → fault.isTransport = true := by
    intro fault hmem
    simp [unreadablePage] at hmem
  have hnamed : (Asked.policy "draft").Named := by
    show (Space.ofText? "draft").isSome = true
    decide
  have hbackend : ({ backend := .cluster } : Deployment).backend = .cluster := rfl
  obtain ⟨outcome, later, hrun, hrespond, htold⟩ :=
    validation_iff_misread hbackend rfl htransport hnamed
  have houtcome : outcome = .error notJson := (congrArg Prod.fst hrun).symm.trans rfl
  rw [houtcome] at hrespond
  exact ⟨later, hrespond, rfl, (htold notJson houtcome).2.1.mp rfl⟩

end Endpoint

end Lifecycle
