import Lifecycle.Proofs.Commands
import Lifecycle.Proofs.Operations

/-!
# Stored hashes are true

Each body that is written has under `hash` the digest of the document beside it: of the document as
it stands there for a copy of an entity, and of the policy that is read back from it for a policy
(`ContentSettings.Truthful`). Where a body goes to does not matter, nor does what the store had
before, so that this is said of what is logged and sent (`World.Puts`), on any deployment, whatever
is done and however it ends (`Job.hashes_true`).

A copy is made from a document that was found, and has its hash; a promoted policy has the hash of
the one that it is promoted from. Relabelling keeps both hashes (`Content.ledgerHash_successorBody`,
`Policies.check_savedBody`), for the space of a document does not count as its content.
-/

namespace Lifecycle

variable {deployment : Deployment}

/-! ### What is put -/

/-- The request that writes a body to a cluster. -/
def Exchange.put (connection : Connection) (index id : String) (body : Table Json) : Exchange :=
  Cluster.requestOf connection "PUT" (Cluster.url connection [index, "_doc", id]) (.object body)
    Cluster.refreshed

/-- A later world in which only such bodies were put: each call that was logged since and writes a
body, and each request that was sent since and does, is about one of them. -/
structure World.Puts (allowed : String → Table Json → Prop) (deployment : Deployment)
    (world later : World) : Prop where
  calls : ∃ made, later.calls = world.calls ++ made ∧
    ∀ index id body, .upsert index id body ∈ made → allowed index body
  exchanges : ∃ sent, later.exchanges = world.exchanges ++ sent ∧
    ∀ exchange ∈ sent, exchange.method = "PUT" → ∃ index id body,
      exchange = .put deployment.connection index id body ∧ allowed index body

namespace World.Puts

variable {allowed : String → Table Json → Prop} {world middle later : World}

/-- A world that differs from another one in neither of the logs. -/
theorem of_logs (hcalls : later.calls = world.calls)
    (hexchanges : later.exchanges = world.exchanges) : world.Puts allowed deployment later := by
  refine ⟨⟨[], by rw [hcalls, List.append_nil], ?_⟩, [], by rw [hexchanges, List.append_nil], ?_⟩
  · exact fun _ _ _ hmem => absurd hmem List.not_mem_nil
  · exact fun _ hmem => absurd hmem List.not_mem_nil

theorem refl (world : World) : world.Puts allowed deployment world := .of_logs rfl rfl

theorem trans (h : world.Puts allowed deployment middle)
    (h' : middle.Puts allowed deployment later) : world.Puts allowed deployment later := by
  obtain ⟨⟨made, hmade, hcalls⟩, ⟨sent, hsent, hexchanges⟩⟩ := h
  obtain ⟨⟨more, hmore, hcalls'⟩, ⟨rest, hrest, hexchanges'⟩⟩ := h'
  refine ⟨⟨made ++ more, by rw [hmore, hmade, List.append_assoc], fun index id body hmem => ?_⟩,
    ⟨sent ++ rest, by rw [hrest, hsent, List.append_assoc], fun exchange hmem => ?_⟩⟩
  · rcases List.mem_append.mp hmem with hmem | hmem
    · exact hcalls index id body hmem
    · exact hcalls' index id body hmem
  · rcases List.mem_append.mp hmem with hmem | hmem
    · exact hexchanges exchange hmem
    · exact hexchanges' exchange hmem

end World.Puts

/-! ### Contracts told step by step -/

/-- A contract that is told by what single calls and requests do, where whatever comes out. A call
that writes, and a request that does, is about a body that may be written. -/
structure Contract.Stepwise (c : Contract) (deployment : Deployment) : Prop where
  shown : ∀ page, c.shown page
  fails : ∀ fault, c.fails fault
  call : ∀ call : Call,
    (∀ index id body, call = .upsert index id body → c.writes index body) →
      (Work.call call).Meets c deployment
  exchange : ∀ request : Exchange,
    (request.method = "PUT" → ∃ index id body,
      request = .put deployment.connection index id body ∧ c.writes index body) →
      (Work.exchange request).Meets c deployment
  memory : ∀ world memory, c.holds world → c.holds { world with memory }
  kept : ∀ world index outcome, c.holds world → c.holds
    { world with
      spaceFields := world.spaceFields.put index
        (Resolver.ofOutcome deployment.settings.spaceFieldCandidates outcome) }
  clock : ∀ world clock, c.holds world → c.holds { world with clock }

namespace Contract.Stepwise

open Work

variable {c : Contract} (h : c.Stepwise deployment)

include h

theorem ends {α : Type} {value : α → Prop} (hvalue : ∀ found, value found)
    (outcome : Except Fault α) : Ends value c.fails outcome := by
  cases outcome with
  | ok found => exact hvalue found
  | error fault => exact h.fails fault

theorem meets_ofExcept {α : Type} (outcome : Except Fault α) :
    (Work.ofExcept outcome).Meets c deployment :=
  keeps_ofExcept (h.ends (fun _ => trivial) outcome)

/-- A call that does not write a body. -/
theorem meets_call {call : Call} (hcall : call.method ≠ .upsert) :
    (Work.call call).Meets c deployment :=
  h.call call fun _ _ _ heq => absurd (congrArg Call.method heq) hcall

/-- A request to a cluster that is not one to write. -/
theorem meets_request {method : String} (hmethod : method ≠ "PUT") (segments : List String)
    (json params : Json) : (Cluster.request method segments json params).Meets c deployment := by
  rw [Cluster.request]
  refine keeps_read.bind fun found hfound => ?_
  exact (h.exchange _ fun hput => absurd hput hmethod).bind fun reply _ => h.meets_ofExcept _

theorem meets_search (index : String) (asked : Search) :
    (Store.search index asked).Meets c deployment c.shown := by
  rw [Store.search]
  refine keeps_read.bind fun found hfound => ?_
  cases found.backend with
  | memory =>
    refine (h.meets_call (by simp [Call.method])).bind fun _ _ => ?_
    exact keeps_get.bind fun _ _ => keeps_ofExcept (h.ends h.shown _)
  | cluster =>
    refine (h.meets_request (by decide) _ _ _).bind fun answer _ => ?_
    cases answer with
    | none => exact keeps_pure (h.shown _)
    | some value => exact keeps_ofExcept (h.ends h.shown _)

theorem meets_fieldCapabilities (index : String) (fields : List String) :
    (Store.fieldCapabilities index fields).Meets c deployment := by
  rw [Store.fieldCapabilities]
  refine keeps_read.bind fun found hfound => ?_
  cases found.backend with
  | memory =>
    refine (h.meets_call (by simp [Call.method])).bind fun _ _ => ?_
    split
    · exact keeps_pure trivial
    · exact keeps_get.bind fun _ _ => h.meets_ofExcept _
  | cluster =>
    refine (h.meets_request (by decide) _ _ _).bind fun answer _ => ?_
    cases answer with
    | none => exact keeps_throw (h.fails _)
    | some value => exact h.meets_ofExcept _

theorem meets_told (space : Space) : (Ledger.told space).Meets c deployment := by
  rw [Ledger.told]
  refine keeps_read.bind fun found hfound => ?_
  refine (h.exchange _ fun hput => ?_).bind fun reply _ => h.meets_ofExcept _
  exact absurd (show "GET" = "PUT" from hput) (by decide)

/-- A body that may be written is put, where documents are in memory by a call and else by a
request. -/
theorem meets_upsert {index : String} {body : Table Json} (hbody : c.writes index body)
    (id : String) : (Store.upsert index id body).Meets c deployment := by
  have hcall : (Work.call (.upsert index id body)).Meets c deployment :=
    h.call _ fun _ _ _ heq => by
      cases heq
      exact hbody
  have hrequest : (Cluster.request "PUT" [index, "_doc", id] (.object body)
      Cluster.refreshed).Meets c deployment := by
    rw [Cluster.request]
    refine keeps_read.bind fun found hfound => ?_
    rw [hfound]
    exact (h.exchange _ fun _ => ⟨index, id, body, rfl, hbody⟩).bind fun reply _ =>
      h.meets_ofExcept _
  rw [Store.upsert]
  refine keeps_read.bind fun found hfound => ?_
  cases found.backend with
  | memory => exact hcall.bind fun _ _ => keeps_modify fun later => h.memory later _
  | cluster =>
    refine hrequest.bind fun answer _ => ?_
    cases answer with
    | none => exact keeps_throw (h.fails _)
    | some value => exact keeps_pure trivial

theorem meets_delete (index id : String) : (Store.delete index id).Meets c deployment := by
  rw [Store.delete]
  refine keeps_read.bind fun found hfound => ?_
  cases found.backend with
  | memory =>
    refine (h.meets_call (by simp [Call.method])).bind fun _ _ => ?_
    exact keeps_modify fun later => h.memory later _
  | cluster => exact (h.meets_request (by decide) _ _ _).bind fun answer _ => keeps_pure trivial

/-- Operations that write meet a contract that each step meets. -/
theorem lawful : c.Lawful deployment where
  search := h.meets_search
  probe index fields := (h.meets_fieldCapabilities index fields).proceeds
  told := h.meets_told
  fixed _ _ := h.ends (fun _ => trivial) _
  kept := h.kept
  clock := h.clock
  unread _ _ _ _ fault _ := h.fails fault
  refused fault _ := h.fails fault
  step _ _ := h.fails _
  upsert _ id _ hbody := h.meets_upsert hbody id
  delete := h.meets_delete

end Contract.Stepwise

/-! ### The contract -/

/-- Since a world only such bodies were put. -/
def Contract.putting (allowed : String → Table Json → Prop) (deployment : Deployment)
    (world : World) : Contract where
  holds later := world.Puts allowed deployment later
  writes := allowed

/-- Where only such bodies are written, only such bodies are put. -/
theorem Contract.putting_stepwise (allowed : String → Table Json → Prop) (world : World) :
    (putting allowed deployment world).Stepwise deployment where
  shown _ := trivial
  fails _ := trivial
  call call hcall middle hmiddle := by
    refine ⟨hmiddle.trans ?_, ends_any _⟩
    rw [Work.runOn_call]
    show World.Puts allowed deployment middle (middle.called deployment call)
    -- a call that is not logged is none that writes
    by_cases hlogged : (call.method.writes || deployment.traced) = true
    · refine ⟨⟨[call], by rw [World.called, if_pos hlogged], fun index id body hmem => ?_⟩, [],
        (List.append_nil _).symm, fun _ hmem => absurd hmem List.not_mem_nil⟩
      exact hcall index id body (List.mem_singleton.mp hmem).symm
    · exact .of_logs (by rw [World.called, if_neg hlogged]) rfl
  exchange request hrequest middle hmiddle := by
    refine ⟨hmiddle.trans ⟨⟨[], (List.append_nil _).symm, fun _ _ _ hmem => ?_⟩, [request], rfl,
      fun exchange hmem => ?_⟩, ends_any _⟩
    · exact absurd hmem List.not_mem_nil
    · rw [List.mem_singleton.mp hmem]
      exact hrequest
  memory _ _ hlater := hlater.trans (.of_logs rfl rfl)
  kept _ _ _ hlater := hlater.trans (.of_logs rfl rfl)
  clock _ _ hlater := hlater.trans (.of_logs rfl rfl)

theorem Contract.putting_lawful (allowed : String → Table Json → Prop) (world : World) :
    (putting allowed deployment world).Lawful deployment :=
  (putting_stepwise allowed world).lawful

/-! ### True hashes -/

namespace Content

variable {body document : Table Json} {source : Table Json} {target : Space}

/-- Whether a body has a digest as its hash. -/
def HasHash (body : Table Json) (digest : String) : Prop :=
  body.get? "hash" = some (.object [("sha256", .text digest)])

/-- The content hash that the ledger knows an entity by. -/
def ledgerHash (body : Table Json) : Except Fault String :=
  (documentFields body).map fun fields => hash fields []

/-- A body whose document has an id has an object as its document. -/
theorem Identified.exists_document (h : Identified body) :
    ∃ document, body.get? "document" = some (.object document) ∧
      (Json.under document "id").given? ≠ none := by
  obtain ⟨id, hid⟩ := h
  rw [entityId?] at hid
  cases hfields : documentFields body with
  | error fault =>
    rw [hfields] at hid
    cases hid
  | ok fields =>
    have hgiven : (Json.under fields "id").given? = some id := by
      rw [hfields] at hid
      exact Except.ok.inj hid
    -- an empty object has no id
    rcases document_of_documentFields hfields with hdocument | rfl
    · exact ⟨fields, hdocument, by simp [hgiven]⟩
    · cases hgiven

variable (h : Identified source)

include h

/-- The document of a copy is that of its source but for the space. -/
theorem exists_document_successorBody (target : Space) :
    ∃ document, source.get? "document" = some (.object document) ∧
      (Commit.successorBody source target).get? "document" =
        some (.object (relabelledField document target.name)) ∧
      (Json.under document "id").given? ≠ none := by
  obtain ⟨document, hdocument, hid⟩ := h.exists_document
  refine ⟨document, hdocument, ?_, hid⟩
  rw [Commit.successorBody, Table.get?_put, if_neg (by decide), get?_document_relabelled hdocument]

/-- The hash of a copy is that of its document. -/
theorem hasHash_successorBody (target : Space) :
    ∃ document, (Commit.successorBody source target).get? "document" = some (.object document) ∧
      HasHash (Commit.successorBody source target) (hash document []) := by
  obtain ⟨document, hdocument, hcopy, -⟩ := exists_document_successorBody h target
  refine ⟨_, hcopy, ?_⟩
  rw [HasHash, Commit.successorBody, Table.get?_put, if_pos rfl, Commit.documentOf, Json.under,
    get?_document_relabelled hdocument]
  rfl

/-- The ledger has the same hash for a copy as for its source. -/
theorem ledgerHash_successorBody (target : Space) :
    ledgerHash (Commit.successorBody source target) = ledgerHash source := by
  obtain ⟨document, hdocument, hcopy, -⟩ := exists_document_successorBody h target
  rw [ledgerHash, ledgerHash, documentFields_of_object hcopy, documentFields_of_object hdocument]
  exact congrArg Except.ok (hash_relabelledField document target.name [])

end Content

namespace Policies

open Content (HasHash)

/-- What a policy is saved as is read back as a policy with the same hash, and has that hash. -/
theorem check_savedBody {document : Policy} (hproper : document.Proper) (space : Space)
    (base : Table Json) :
    ∃ value policy, (savedBody space document base).get? "document" = some value ∧
      Policy.check value = .good policy ∧ policy.contentHash = document.contentHash ∧
        HasHash (savedBody space document base) policy.contentHash := by
  have hsame := Policy.contentHash_reread hproper space
  refine ⟨_, _, get?_document_savedBody document, Policy.check_saved document space, hsame, ?_⟩
  rw [HasHash, hsame, savedBody, Table.get?_put, if_pos rfl]

end Policies

/-- Whether the hash in a body that goes to an index is that of the document beside it: in an index
of entities of the document itself, in that of policies of the policy that is read from it. -/
def ContentSettings.Truthful (settings : ContentSettings) (index : String) (body : Table Json) :
    Prop :=
  ((∃ type, index = settings.indexFor type) ∧ ∃ document,
    body.get? "document" = some (.object document) ∧
      Content.HasHash body (Content.hash document [])) ∨
  (index = settings.policiesIndex ∧ ∃ document policy, body.get? "document" = some document ∧
    Policy.check document = .good policy ∧ Content.HasHash body policy.contentHash)

/-! ### Copies and their sources -/

namespace Commit

/-- Whether a body is the copy of a changed entity, made from the document that is found for it in a
space, and has the hash that the ledger knows this document by. -/
def IsCopy (deployment : Deployment) (world : World) (type : EntityType) (changes : List Change)
    (space target : Space) (index : String) (body : Table Json) : Prop :=
  index = deployment.settings.indexFor type ∧ ∃ sources change hit,
    ((copies type (changes.map Change.id) space .null).runOn deployment world).1 = .ok sources ∧
      change ∈ changes ∧ Table.get? sources change.id = some hit ∧
        body = successorBody hit.source target ∧
          Content.ledgerHash body = Content.ledgerHash hit.source

theorem puts_write (deployment : Deployment) (world : World) (type : EntityType)
    (changes : List Change) (space target : Space) :
    world.Puts (IsCopy deployment world type changes space target) deployment
      ((write type changes space target).runOn deployment world).2 := by
  refine proceeds_write_from (Contract.putting_lawful _ world) (.refl world) ?_
  intro sources hsources change hchange hit hhit hidentified
  exact ⟨rfl, sources, change, hit, hsources, hchange, hhit, rfl,
    Content.ledgerHash_successorBody hidentified target⟩

/-- Whether a body is that of a policy with the hash of the policy that is found in a space. -/
def IsPolicyOf (deployment : Deployment) (world : World) (space : Space) (index : String)
    (body : Table Json) : Prop :=
  index = deployment.settings.policiesIndex ∧ ∃ source document policy,
    ((Policies.get? space).runOn deployment world).1 = .ok (some source) ∧
      body.get? "document" = some document ∧ Policy.check document = .good policy ∧
        policy.contentHash = source.document.contentHash

theorem puts_promotePolicy (deployment : Deployment) (world : World) (space target : Space) :
    world.Puts (IsPolicyOf deployment world space) deployment
      ((promotePolicy space target).runOn deployment world).2 := by
  refine proceeds_promotePolicy_from (Contract.putting_lawful _ world) (.refl world) ?_
  intro source hsource hproper time current base
  obtain ⟨hpromoted, hhash⟩ :
      (Policies.stamped (promotedDocument source.document current) time).Proper ∧
      (Policies.stamped (promotedDocument source.document current) time).contentHash =
        source.document.contentHash := by
    -- neither the id nor the times of a policy count as its content
    unfold promotedDocument
    cases current with
    | none => exact ⟨hproper, Policy.contentHash_with source.document source.document.id _⟩
    | some record =>
      dsimp only
      split
      · exact ⟨hproper, Policy.contentHash_with source.document source.document.id _⟩
      · exact ⟨hproper, Policy.contentHash_with source.document record.document.id _⟩
  obtain ⟨value, policy, hvalue, hpolicy, hsame, -⟩ :=
    Policies.check_savedBody hpromoted target base
  exact ⟨rfl, source, value, policy, hsource, hvalue, hpolicy, hsame.trans hhash⟩

end Commit

/-! ### Whatever is done -/

/-- Since a world only true hashes were put. -/
theorem Contract.truthful_writes (deployment : Deployment) (world : World) :
    (putting deployment.settings.Truthful deployment world).Writes deployment where
  toLawful := putting_lawful _ world
  copy type source target hsource :=
    .inl ⟨⟨type, rfl⟩, Content.hasHash_successorBody hsource target⟩
  policy space document base hproper := by
    obtain ⟨value, policy, hvalue, hpolicy, -, hhash⟩ :=
      Policies.check_savedBody hproper space base
    exact .inr ⟨rfl, value, policy, hvalue, hpolicy, hhash⟩

/-- What changes the contents: a command, or the saving of a document as the policy of a space, in
the place of any earlier policy, or in the shape of any. -/
inductive Job where
  | command (command : Command)
  | save (space : Space) (document : Json) (current shape : Option PolicyRecord)

namespace Job

/-- The world after a job, however it ends. -/
def run (deployment : Deployment) (world : World) : Job → World
  | .command asked => asked.run deployment world
  | .save space document current shape =>
    ((do
      let policy ← Work.ofExcept ((Policy.check document).orMisfit "Policy")
      Policies.save space policy current shape : Work PolicyRecord).runOn deployment world).2

/-- The world after jobs in a row, each of them with the rules by which calls fail while it is
carried out. -/
def runAll (deployment : Deployment) (world : World) (jobs : List (Job × List FailureRule)) :
    World :=
  jobs.foldl (fun world step => step.1.run deployment (world.under step.2)) world

/-- A job keeps what a contract says about the world, if the contract is one by which whatever comes
out. -/
theorem holds_run {c : Contract} (h : c.Writes deployment) (hfails : ∀ fault, c.fails fault)
    {world : World} (hstart : c.holds world) (job : Job) :
    c.holds (job.run deployment world) := by
  cases job with
  | command asked =>
    cases asked with
    | request request => exact Service.holds_handle hstart h hfails request
    | promote space changes => exact (Commit.meets_promote h space changes world hstart).1
    | update space given =>
      exact (Policies.meets_update h.toLawful h.policy space given world hstart).1
    | reorder space wanted =>
      exact (Policies.meets_reorder h.toLawful h.policy space wanted world hstart).1
    | assign space decoder =>
      exact (Gate.meets_assign h.toLawful h.policy space decoder world hstart).1
  | save space document current shape =>
    have hchecked : Ends Policy.Proper (fun _ => True)
        ((Policy.check document).orMisfit "Policy") := by
      cases hcheck : Policy.check document with
      | bad details => trivial
      | good policy => exact Policy.extra_of_check hcheck
    refine (Work.keeps_ofExcept hchecked).holds_bind_from hstart fun policy _ hproper => ?_
    refine Policies.keeps_save h.toLawful (fun _ _ => trivial) fun time => ?_
    cases Policies.placeFor deployment.settings space (Policies.stamped policy time) current
        shape with
    | error fault => trivial
    | ok place => exact h.policy space _ place.2 hproper

theorem puts_run (deployment : Deployment) (world : World) (job : Job) :
    world.Puts deployment.settings.Truthful deployment (job.run deployment world) :=
  holds_run (Contract.truthful_writes deployment world) (fun _ => trivial) (.refl world) job

/-- Stored hashes are true. Whatever is done on whatever deployment, in any world, with any calls
and requests failing: each body that is put has the hash of the document in it. What a promotion
puts for an entity is the copy of the document that was found for it, with the hash that the ledger
knows this one by; what it puts for a policy is read back as one with the hash of the policy that it
promotes. -/
theorem hashes_true (deployment : Deployment) (world : World) :
    (∀ jobs, world.Puts deployment.settings.Truthful deployment (runAll deployment world jobs)) ∧
    (∀ type changes space target,
      world.Puts (Commit.IsCopy deployment world type changes space target) deployment
        ((Commit.write type changes space target).runOn deployment world).2) ∧
    ∀ space target, world.Puts (Commit.IsPolicyOf deployment world space) deployment
      ((Commit.promotePolicy space target).runOn deployment world).2 := by
  refine ⟨fun jobs => ?_, Commit.puts_write deployment world,
    Commit.puts_promotePolicy deployment world⟩
  induction jobs generalizing world with
  | nil => exact .refl world
  | cons step rest ih =>
    have hunder : world.Puts deployment.settings.Truthful deployment (world.under step.2) :=
      .of_logs rfl rfl
    exact (hunder.trans (puts_run deployment _ step.1)).trans (ih _)

end Job

end Lifecycle
