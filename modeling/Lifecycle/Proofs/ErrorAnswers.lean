import Lifecycle.Proofs.Names
import Lifecycle.Store.Cluster

/-!
# Error answers of the cluster

An operation on the documents in the cluster is one exchange (`Cluster.Operation.runOn_eq`): what it
ends in is told by the reply, and nothing but the log of what was sent and the replies that are left
changes.

An answer with status 404 says that there is nothing to be found or to be removed. Any other status
from 400 on is to be a fault of the store with that status and the reason that the body gives, in
words that are never empty (`Cluster.reason_ne_empty`). This is so for a body of any other text and
for a body that is an object, whatever stands in it. A body that is any other JSON value is asked
for its parts all the same and ends in another fault (`Cluster.reason_of_value`), which gives the
main statement (`Cluster.error_answers`).
-/

namespace Lifecycle

namespace Cluster

/-! ### Operations -/

/-- An operation on the documents in the cluster by the kind of value it gives. Documents are asked
for by at least one id: without ids nothing is sent. -/
inductive Operation : Type → Type where
  | search (index : String) (asked : Search) : Operation Page
  | byIds (index first : String) (more : List String) : Operation (List Hit)
  | fieldCapabilities (index : String) (fields : List String) : Operation Json
  | upsert (index id : String) (body : Table Json) : Operation Unit
  | delete (index id : String) : Operation Unit

namespace Operation

variable {α : Type}

def run : {α : Type} → Operation α → Work α
  | _, .search index asked => Cluster.search index asked
  | _, .byIds index first more => Cluster.byIds index (first :: more)
  | _, .fieldCapabilities index fields => Cluster.fieldCapabilities index fields
  | _, .upsert index id body => Cluster.upsert index id body
  | _, .delete index id => Cluster.delete index id

/-- What is sent. -/
def sent (connection : Connection) : {α : Type} → Operation α → Exchange
  | _, .search index asked =>
    requestOf connection "POST" (url connection [index, "_search"]) (searchBody asked) .null
  | _, .byIds index first more =>
    requestOf connection "POST" (url connection [index, "_mget"])
      (.object [("ids", Json.texts (first :: more).eraseDups)]) .null
  | _, .fieldCapabilities index fields =>
    requestOf connection "GET" (url connection [index, "_field_caps"]) .null
      (.object [("fields", .text (String.intercalate "," fields))])
  | _, .upsert index id body =>
    requestOf connection "PUT" (url connection [index, "_doc", id]) (.object body) refreshed
  | _, .delete index id =>
    requestOf connection "DELETE" (url connection [index, "_doc", id]) .null refreshed

/-- What an operation ends in when what it is about does not exist. -/
def absent : {α : Type} → Operation α → Except Fault α
  | _, .search .. => .ok ⟨0, []⟩
  | _, .byIds .. => .ok []
  | _, .fieldCapabilities index _ =>
    .error (.store ("Index '" ++ index ++ "' does not exist.") (some 404))
  | _, .upsert index id _ =>
    .error (.store ("Index '" ++ index ++ "' rejected document '" ++ id ++ "'.") (some 404))
  | _, .delete .. => .ok ()

/-- What an operation makes of the value of an answer. -/
def reading : {α : Type} → Operation α → Json → Except Fault α
  | _, .search .., answer => page answer
  | _, .byIds .., answer => do foundAmong (← givenItems (← part answer "docs"))
  | _, .fieldCapabilities .., answer => do
    let found ← part answer "fields"
    pure (if found.truthy then found else .object [])
  | _, .upsert .., _ => .ok ()
  | _, .delete .., _ => .ok ()

/-- What an operation ends in, given the reply. -/
def outcome (operation : Operation α) (reply : Reply) : Except Fault α :=
  match replyContents reply with
  | .error fault => .error fault
  | .ok none => operation.absent
  | .ok (some answer) => operation.reading answer

variable {deployment : Deployment} {world : World}

theorem runOn_request (method : String) (segments : List String) (json params : Json) :
    (request method segments json params).runOn deployment world =
      (replyContents (Reply.next world.replies).1,
        world.exchanged (requestOf deployment.connection method
          (url deployment.connection segments) json params)) := by
  rw [request, Work.runOn_bind, Work.runOn_read]
  exact Work.runOn_exchange_bind _ replyContents

theorem runOn_request_bind {method : String} {segments : List String} {json params : Json}
    {next : Option Json → Work α} {absent : Except Fault α} {reading : Json → Except Fault α}
    (hnone : ∀ later, (next none).runOn deployment later = (absent, later))
    (hsome : ∀ answer later,
      (next (some answer)).runOn deployment later = (reading answer, later)) :
    (request method segments json params >>= next).runOn deployment world =
      (match replyContents (Reply.next world.replies).1 with
        | .error fault => .error fault
        | .ok none => absent
        | .ok (some answer) => reading answer,
        world.exchanged (requestOf deployment.connection method
          (url deployment.connection segments) json params)) := by
  rw [Work.runOn_bind, runOn_request]
  rcases replyContents (Reply.next world.replies).1 with fault | _ | answer
  · rfl
  · exact hnone _
  · exact hsome answer _

/-- An operation is one exchange. -/
theorem runOn_eq (operation : Operation α) :
    operation.run.runOn deployment world =
      (operation.outcome (Reply.next world.replies).1,
        world.exchanged (operation.sent deployment.connection)) := by
  cases operation with
  | search => exact runOn_request_bind (fun _ => rfl) fun _ _ => Work.runOn_ofExcept _
  | byIds => exact runOn_request_bind (fun _ => rfl) fun _ _ => Work.runOn_ofExcept _
  | fieldCapabilities =>
    exact runOn_request_bind (fun _ => rfl) fun _ _ => Work.runOn_ofExcept _
  | upsert => exact runOn_request_bind (fun _ => rfl) fun _ _ => rfl
  | delete => exact runOn_request_bind (fun _ => rfl) fun _ _ => rfl

end Operation

/-! ### Reasons -/

/-- A body in which the reason of an error is looked for as it should be: no JSON, or an object. -/
def Searchable (body : String) : Prop :=
  ∀ value, Json.read body = .ok value → ∃ fields, value = .object fields

theorem statusText_ne_empty (status : Int) : statusText status ≠ "" := by
  simp [statusText]

theorem display_object_ne_empty (fields : Table Json) : (Json.object fields).display ≠ "" := by
  simp [Json.display, Json.nested]

/-- The reason of an error is never empty. -/
theorem reason_ne_empty {status : Int} {body words : String}
    (h : reason status body = .ok words) : words ≠ "" := by
  rw [reason] at h
  split at h
  · -- the body is no JSON: its own text is the reason, unless it is blank
    obtain rfl := Except.ok.inj h
    split_ifs with hempty
    · exact statusText_ne_empty status
    · simpa using hempty
  · split at h
    · -- the error is an object: its reason, its type or all of it
      rename_i error _
      obtain rfl := Except.ok.inj h
      have hunder : ∀ key given, (Json.under error key).given? = some given → given.display ≠ "" :=
        fun _ _ => Json.display_ne_empty
      cases hreason : (Json.under error "reason").given? with
      | some given => simpa [hreason] using hunder _ _ hreason
      | none =>
        cases htype : (Json.under error "type").given? with
        | some given => simpa [hreason, htype] using hunder _ _ htype
        | none => simpa [hreason, htype] using display_object_ne_empty error
    · -- the error is any other value
      rename_i fields _ _ _
      obtain rfl := Except.ok.inj h
      cases hgiven : (Json.under fields "error").given? with
      | some given => simpa using Json.display_ne_empty hgiven
      | none => simpa using statusText_ne_empty status
  · cases h

/-- A value that is no object is asked for a part all the same. -/
theorem reason_of_value {status : Int} {body : String} {value : Json}
    (hread : Json.read body = .ok value) (hvalue : ∀ fields, value ≠ .object fields) :
    reason status body = .error (.noPart value "get") := by
  cases value with
  | object fields => exact absurd rfl (hvalue fields)
  | _ => simp [reason, hread]

theorem exists_reason {status : Int} {body : String} (h : Searchable body) :
    ∃ words, reason status body = .ok words := by
  rw [reason]
  cases hread : Json.read body with
  | error fault => exact ⟨_, rfl⟩
  | ok value =>
    obtain ⟨fields, rfl⟩ := h value hread
    simp only
    split <;> exact ⟨_, rfl⟩

/-! ### Error answers -/

/-- What an operation ends in when an error answer comes back, or none. -/
structure ErrorsAnswered {α : Type} (operation : Operation α) (deployment : Deployment)
    (world : World) : Prop where
  /-- Any status from 400 on but 404 becomes a fault of the store with that status and some words
  exactly if the body is an object or no JSON. -/
  failed_iff : ∀ {status body}, (Reply.next world.replies).1 = .answer status body →
    400 ≤ status → status ≠ 404 →
      ((∃ words, words ≠ "" ∧
        (operation.run.runOn deployment world).1 = .error (.store words (some status))) ↔
          Searchable body)
  /-- Any other body ends in the fault of a value without the part that was asked for. -/
  misread : ∀ {status body value}, (Reply.next world.replies).1 = .answer status body →
    400 ≤ status → status ≠ 404 → Json.read body = .ok value →
      (∀ fields, value ≠ .object fields) →
        (operation.run.runOn deployment world).1 = .error (.noPart value "get")
  /-- With status 404 there is nothing to be found, and nothing to be removed. -/
  missing : ∀ {body}, (Reply.next world.replies).1 = .answer 404 body →
    (operation.run.runOn deployment world).1 = operation.absent
  /-- Where no answer comes back, that is a fault of the store too. -/
  unanswered : ∀ {fault}, (Reply.next world.replies).1 = .broken fault → fault.isTransport →
    (operation.run.runOn deployment world).1 =
      .error (.store ("OpenSearch request failed: " ++ fault.message) none)
  /-- One request is sent, and nothing else changes. -/
  once : (operation.run.runOn deployment world).2 =
    world.exchanged (operation.sent deployment.connection)

section Answers

variable {α : Type} {operation : Operation α} {status : Int} {body : String}

theorem contents_of_status (hleast : 400 ≤ status) (hother : status ≠ 404) :
    contents status body =
      match reason status body with
      | .ok words => .error (.store words (some status))
      | .error fault => .error fault := by
  have hfound : ¬(status == 404) = true := by simpa using hother
  exact (if_neg hfound).trans (if_pos hleast)

theorem outcome_of_searchable (hleast : 400 ≤ status) (hother : status ≠ 404)
    (h : Searchable body) : ∃ words, words ≠ "" ∧
      operation.outcome (.answer status body) = .error (.store words (some status)) := by
  obtain ⟨words, hwords⟩ := @exists_reason status body h
  refine ⟨words, reason_ne_empty hwords, ?_⟩
  simp only [Operation.outcome, replyContents, contents_of_status hleast hother, hwords]

theorem outcome_of_value (hleast : 400 ≤ status) (hother : status ≠ 404) {value : Json}
    (hread : Json.read body = .ok value) (hvalue : ∀ fields, value ≠ .object fields) :
    operation.outcome (.answer status body) = .error (.noPart value "get") := by
  simp only [Operation.outcome, replyContents, contents_of_status hleast hother,
    reason_of_value hread hvalue]

theorem exists_outcome_iff (hleast : 400 ≤ status) (hother : status ≠ 404) :
    (∃ words, words ≠ "" ∧
      operation.outcome (.answer status body) = .error (.store words (some status))) ↔
        Searchable body := by
  refine ⟨?_, outcome_of_searchable hleast hother⟩
  rintro ⟨words, -, hwords⟩ value hread
  -- a body of another kind ends in a fault without a status
  by_contra hvalue
  rw [outcome_of_value hleast hother hread (not_exists.mp hvalue)] at hwords
  cases hwords

end Answers

/-- An error answer becomes a fault of the store with its status, unless its body is a JSON value
that is no object. -/
theorem error_answers {α : Type} (operation : Operation α) (deployment : Deployment)
    (world : World) : ErrorsAnswered operation deployment world where
  failed_iff hreply hleast hother := by
    rw [Operation.runOn_eq, hreply]
    exact exists_outcome_iff hleast hother
  misread hreply hleast hother hread hvalue := by
    rw [Operation.runOn_eq, hreply]
    exact outcome_of_value hleast hother hread hvalue
  missing hreply := by
    rw [Operation.runOn_eq, hreply]
    rfl
  unanswered hreply htransport := by
    rw [Operation.runOn_eq, hreply]
    simp only [Operation.outcome, replyContents, htransport, if_true]
  once := by rw [Operation.runOn_eq]

/-- A search that is answered with status 500 and a list. -/
theorem error_answers_listedBody :
    ((Operation.search ".cti-decoders" {}).run.runOn {} { replies := [.answer 500 "[]"] }).1 =
      .error (.noPart (.list []) "get") :=
  (error_answers _ _ _).misread rfl (by decide) (by decide) rfl fun _ => Json.noConfusion

end Cluster

end Lifecycle
