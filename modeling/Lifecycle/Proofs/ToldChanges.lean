import Lifecycle.Proofs.Checks
import Lifecycle.Proofs.Ledgers

/-!
# Changes as the content manager tells them

A value is read as a change set exactly if it is written as one (`ChangeSet.Written`): an object in
which each of the five keys has a list of changes or is absent, each change an object with a text as
its id and an operation. The ids are read as they stand, in their order, and other keys do not count
(`ChangeSet.check_eq_good_iff`).

From this follows what asking the content manager ends in, whatever comes back of it
(`Ledger.told_changes`): a change set, or a fault of the service.
-/

namespace Lifecycle

/-! ### Written changes -/

/-- The texts that an operation is read from: its name, and for a removal `delete` too, in any
casing and with blanks around it. -/
def Operation.Spelled (s : String) (operation : Operation) : Prop :=
  s = operation.name ∨ operation = .remove ∧ Text.lower (Text.trim s) = "delete"

/-- A value that a change is read from. -/
def Change.Written (value : Json) (change : Change) : Prop :=
  ∃ fields, value = .object fields ∧ Table.get? fields "id" = some (.text change.id) ∧
    ∃ s, Table.get? fields "operation" = some (.text s) ∧ Operation.Spelled s change.operation

/-- The changes under a key of an object, none if the key is absent. -/
def ChangeSet.Listed (fields : Table Json) (key : String) (changes : List Change) : Prop :=
  Table.get? fields key = none ∧ changes = [] ∨
    ∃ items, Table.get? fields key = some (.list items) ∧
      List.Forall₂ Change.Written items changes

/-- A value that a change set is read from. -/
def ChangeSet.Written (value : Json) (changes : ChangeSet) : Prop :=
  ∃ fields, value = .object fields ∧ Listed fields "policy" changes.policy ∧
    Listed fields "integrations" changes.integrations ∧
    Listed fields "decoders" changes.decoders ∧ Listed fields "kvdbs" changes.kvdbs ∧
    Listed fields "rules" changes.rules

/-! ### Reading them -/

theorem Check.required_eq_good_iff {α : Type} {fields : Table Json} {key : String} {value : α}
    {check : Json → Checked α} :
    required fields key check = .good value ↔
      ∃ found, fields.get? key = some found ∧ check found = .good value := by
  unfold required
  cases fields.get? key with
  | none => simp [Checked.under_eq_good_iff, Checked.complain]
  | some found => simp [Checked.under_eq_good_iff]

theorem Check.fieldsOf_eq_good_iff {α : Type} {otherwise : Complaint}
    {check : Table Json → Checked α} {value : Json} {found : α} :
    fieldsOf otherwise check value = .good found ↔
      ∃ fields, value = .object fields ∧ check fields = .good found := by
  cases value <;> simp [fieldsOf, Checked.complain]

theorem Operation.ofName?_eq_some_iff {s : String} {operation : Operation} :
    ofName? s = some operation ↔ s = operation.name := by
  constructor
  · intro h
    have hname := List.find?_some h
    exact (beq_iff_eq.mp hname).symm
  · rintro rfl
    cases operation <;> rfl

/-- `delete` is the name of no operation, so that no text is read in two ways. -/
theorem Operation.check_eq_good_iff {value : Json} {operation : Operation} :
    Operation.check value = .good operation ↔ ∃ s, value = .text s ∧ Spelled s operation := by
  cases value with
  | text s =>
    simp only [check, Json.text.injEq, exists_eq_left', Spelled, beq_iff_eq]
    split_ifs with hdelete
    · have hnames : ∀ operation : Operation, s ≠ operation.name := by
        rintro operation rfl
        cases operation <;> exact absurd hdelete (by decide)
      simp [hnames operation, hdelete, eq_comm]
    · rw [← ofName?_eq_some_iff]
      cases ofName? s <;> simp [hdelete, Checked.complain]
  | _ => simp [check, Checked.complain]

theorem Change.check_eq_good_iff {otherwise : Complaint} {value : Json} {change : Change} :
    Change.check otherwise value = .good change ↔ Written value change := by
  obtain ⟨id, operation⟩ := change
  simp only [Change.check, Check.fieldsOf_eq_good_iff, Checked.seq_eq_good_iff,
    Checked.map_eq_good_iff, Check.required_eq_good_iff, Operation.check_eq_good_iff,
    Check.text_eq_good_iff, Written]
  constructor
  · rintro ⟨fields, rfl, _, _, ⟨_, ⟨_, hid, rfl⟩, rfl⟩, ⟨_, hoperation, s, rfl, hs⟩, hchange⟩
    obtain ⟨rfl, rfl⟩ := Change.mk.inj hchange
    exact ⟨fields, rfl, hid, s, hoperation, hs⟩
  · rintro ⟨fields, rfl, hid, s, hoperation, hs⟩
    exact ⟨fields, rfl, _, _, ⟨id, ⟨_, hid, rfl⟩, rfl⟩, ⟨_, hoperation, s, rfl, hs⟩, rfl⟩

theorem ChangeSet.listed_iff {otherwise : Complaint} {fields : Table Json} {key : String}
    {changes : List Change} :
    Check.optional fields key [] (Check.listOf (Change.check otherwise)) = .good changes ↔
      Listed fields key changes := by
  rw [Check.optional_eq_good_iff, Listed, eq_comm (a := [])]
  refine or_congr_right ⟨?_, ?_⟩
  · rintro ⟨found, hfound, hchecked⟩
    cases found with
    | list items =>
      rw [Check.listOf_eq_good_iff] at hchecked
      exact ⟨items, hfound, hchecked.imp fun _ _ => Change.check_eq_good_iff.mp⟩
    | _ => cases hchecked
  · rintro ⟨items, hitems, hall⟩
    refine ⟨_, hitems, Check.listOf_eq_good_iff.mpr ?_⟩
    exact hall.imp fun _ _ => Change.check_eq_good_iff.mpr

/-- A value is read as a change set exactly if it is written as that one. -/
theorem ChangeSet.check_eq_good_iff {otherwise : Complaint} {value : Json} {changes : ChangeSet} :
    ChangeSet.check otherwise value = .good changes ↔ Written value changes := by
  obtain ⟨policy, integrations, decoders, kvdbs, rules⟩ := changes
  simp only [ChangeSet.check, Check.fieldsOf_eq_good_iff, Checked.seq_eq_good_iff,
    Checked.map_eq_good_iff, listed_iff, Written]
  -- the key that is read last stands outermost
  constructor
  · rintro ⟨fields, rfl, _, _, ⟨_, _, ⟨_, _, ⟨_, _, ⟨_, hpolicy, rfl⟩, hintegrations, rfl⟩,
      hdecoders, rfl⟩, hkvdbs, rfl⟩, hrules, hchanges⟩
    obtain ⟨rfl, rfl, rfl, rfl, rfl⟩ := ChangeSet.mk.inj hchanges
    exact ⟨fields, rfl, hpolicy, hintegrations, hdecoders, hkvdbs, hrules⟩
  · rintro ⟨fields, rfl, hpolicy, hintegrations, hdecoders, hkvdbs, hrules⟩
    exact ⟨fields, rfl, _, _, ⟨_, _, ⟨_, _, ⟨_, _, ⟨_, hpolicy, rfl⟩, hintegrations, rfl⟩,
      hdecoders, rfl⟩, hkvdbs, rfl⟩, hrules, rfl⟩

namespace Ledger

variable {deployment : Deployment} {world : World} {space : Space}

/-! ### Asking the content manager -/

/-- A fault of the service, in whatever words. -/
def IsServiceFault {α : Type} (outcome : Except Fault α) : Prop :=
  ∃ message, outcome = .error (.service message)

/-- Changes that are there and not empty are read if they are written as a change set. -/
theorem changesIn_object {fields : Table Json} {changes : Json}
    (hchanges : Table.get? fields "changes" = some changes) (htruthy : changes.truthy = true) :
    (∀ found, changesIn (.object fields) = .ok found ↔ ChangeSet.Written changes found) ∧
      ((∀ found, ¬ChangeSet.Written changes found) →
        IsServiceFault (changesIn (.object fields))) := by
  have hgiven : (((Json.object fields).get? "changes").bind Json.given?).getD (.object []) =
      changes := by
    simp [Json.get?, hchanges, Json.given?, htruthy]
  simp only [changesIn, hgiven, ← @ChangeSet.check_eq_good_iff .notModel]
  cases ChangeSet.check .notModel changes with
  | good found => simp
  | bad details => exact ⟨by simp, fun _ => ⟨_, rfl⟩⟩

/-- An answer without changes, or with ones that count as none, has an empty change set. -/
theorem changesIn_of_none {answer : Json}
    (h : (answer.get? "changes").bind Json.given? = none) : changesIn answer = .ok {} := by
  rw [changesIn, h]
  rfl

/-- What asking the content manager ends in, by what comes back. -/
structure ToldChanges (deployment : Deployment) (world : World) (space : Space) : Prop where
  /-- With status 404 there are no changes. -/
  missing : ∀ {body}, (Reply.next world.replies).1 = .answer 404 body →
    ((told space).runOn deployment world).1 = .ok {}
  /-- A body that is no object has no changes. -/
  other : ∀ {body answer}, (Reply.next world.replies).1 = .answer 200 body →
    Json.read body = .ok answer → (∀ fields, answer ≠ .object fields) →
      ((told space).runOn deployment world).1 = .ok {}
  /-- An object whose changes are absent, or count as none, has no changes. -/
  empty : ∀ {body fields}, (Reply.next world.replies).1 = .answer 200 body →
    Json.read body = .ok (.object fields) →
      (∀ changes, Table.get? fields "changes" = some changes → changes.truthy = false) →
        ((told space).runOn deployment world).1 = .ok {}
  /-- Changes that count are read exactly if they are written as a change set, and as that one. -/
  read_iff : ∀ {body fields changes}, (Reply.next world.replies).1 = .answer 200 body →
    Json.read body = .ok (.object fields) → Table.get? fields "changes" = some changes →
      changes.truthy = true → ∀ found,
        ((told space).runOn deployment world).1 = .ok found ↔ ChangeSet.Written changes found
  /-- Otherwise they are refused. -/
  refused : ∀ {body fields changes}, (Reply.next world.replies).1 = .answer 200 body →
    Json.read body = .ok (.object fields) → Table.get? fields "changes" = some changes →
      changes.truthy = true → (∀ found, ¬ChangeSet.Written changes found) →
        IsServiceFault ((told space).runOn deployment world).1
  /-- A body that is no JSON is refused. -/
  unreadable : ∀ {body fault}, (Reply.next world.replies).1 = .answer 200 body →
    Json.read body = .error fault → IsServiceFault ((told space).runOn deployment world).1
  /-- Any other status is refused. -/
  failed : ∀ {status body}, (Reply.next world.replies).1 = .answer status body → status ≠ 200 →
    status ≠ 404 → IsServiceFault ((told space).runOn deployment world).1
  /-- Where no answer comes back, that is a fault of the service too. -/
  unanswered : ∀ {fault}, (Reply.next world.replies).1 = .broken fault → fault.isTransport →
    IsServiceFault ((told space).runOn deployment world).1
  /-- It ends in nothing else. -/
  closed : (∀ fault, (Reply.next world.replies).1 = .broken fault → fault.isTransport) →
    (∃ found, ((told space).runOn deployment world).1 = .ok found) ∨
      IsServiceFault ((told space).runOn deployment world).1
  /-- The documents stay as they are. -/
  unchanged : ((told space).runOn deployment world).2.memory = world.memory

/-- What is sent to ask for the changes of a space. -/
def asked (connection : Connection) (space : Space) : Exchange :=
  { method := "GET"
    url := url connection
    params := .object [("space", .text space.name)]
    timeout := .float connection.timeoutSeconds
    session := some (connection.verifyCerts, connection.credentials?) }

theorem runOn_told :
    (told space).runOn deployment world =
      (replyChanges (Reply.next world.replies).1,
        world.exchanged (asked deployment.connection space)) := by
  rw [told, Work.runOn_bind, Work.runOn_read]
  exact Work.runOn_exchange_bind _ replyChanges

theorem replyChanges_of_read {body : String} {answer : Json} (h : Json.read body = .ok answer) :
    replyChanges (.answer 200 body) = changesIn answer := by
  simp [replyChanges, h]

theorem changesIn_closed (answer : Json) :
    (∃ found, changesIn answer = .ok found) ∨ IsServiceFault (changesIn answer) := by
  unfold changesIn
  simp only
  split
  · exact .inl ⟨_, rfl⟩
  · exact .inr ⟨_, rfl⟩

theorem replyChanges_unreadable {body : String} {fault : ReadFault}
    (h : Json.read body = .error fault) : IsServiceFault (replyChanges (.answer 200 body)) := by
  simp only [replyChanges, h]
  exact ⟨_, rfl⟩

theorem replyChanges_failed {status : Int} (body : String) (hok : status ≠ 200)
    (hmissing : status ≠ 404) : IsServiceFault (replyChanges (.answer status body)) := by
  simp only [replyChanges, beq_iff_eq, hmissing, if_false, bne_iff_ne, ne_eq, hok,
    not_false_eq_true, if_true]
  exact ⟨_, rfl⟩

theorem replyChanges_unanswered {fault : Fault} (h : fault.isTransport) :
    IsServiceFault (replyChanges (.broken fault)) := by
  simp only [replyChanges, h, if_true]
  exact ⟨_, rfl⟩

/-- Whatever comes back is a change set or a fault of the service, unless it is a fault that does
not lie in the transport. -/
theorem replyChanges_closed {reply : Reply}
    (h : ∀ fault, reply = .broken fault → fault.isTransport) :
    (∃ found, replyChanges reply = .ok found) ∨ IsServiceFault (replyChanges reply) := by
  cases reply with
  | broken fault => exact .inr (replyChanges_unanswered (h fault rfl))
  | answer status body =>
    by_cases hmissing : status = 404
    · exact .inl ⟨{}, by rw [hmissing]; rfl⟩
    by_cases hok : status = 200
    · subst hok
      cases hread : Json.read body with
      | error fault => exact .inr (replyChanges_unreadable hread)
      | ok answer =>
        rw [replyChanges_of_read hread]
        exact changesIn_closed answer
    · exact .inr (replyChanges_failed body hok hmissing)

/-- Asking the content manager ends in the change set that the answer is written as, or in a fault
of the service. -/
theorem told_changes (deployment : Deployment) (world : World) (space : Space) :
    ToldChanges deployment world space where
  missing hreply := by
    rw [runOn_told, hreply]
    rfl
  other {body answer} hreply hread hvalue := by
    rw [runOn_told, hreply]
    refine (replyChanges_of_read hread).trans (changesIn_of_none ?_)
    cases answer with
    | object fields => exact absurd rfl (hvalue fields)
    | _ => rfl
  empty {body fields} hreply hread hfalsy := by
    rw [runOn_told, hreply]
    refine (replyChanges_of_read hread).trans (changesIn_of_none ?_)
    cases hchanges : Table.get? fields "changes" with
    | none => simp [Json.get?, hchanges]
    | some changes => simp [Json.get?, hchanges, Json.given?, hfalsy changes hchanges]
  read_iff hreply hread hchanges htruthy found := by
    rw [runOn_told, hreply]
    simp only [replyChanges_of_read hread]
    exact (changesIn_object hchanges htruthy).1 found
  refused hreply hread hchanges htruthy hother := by
    rw [runOn_told, hreply]
    simp only [replyChanges_of_read hread]
    exact (changesIn_object hchanges htruthy).2 hother
  unreadable hreply hread := by
    rw [runOn_told, hreply]
    exact replyChanges_unreadable hread
  failed hreply hok hmissing := by
    rw [runOn_told, hreply]
    exact replyChanges_failed _ hok hmissing
  unanswered hreply htransport := by
    rw [runOn_told, hreply]
    exact replyChanges_unanswered htransport
  closed h := by
    rw [runOn_told]
    exact replyChanges_closed h
  unchanged := by
    rw [runOn_told]
    rfl

/-- A body with a removal that is spelled `delete`, and with a key that does not count. -/
def paddedRemoval : String :=
  "\x7b\"changes\": \x7b\"rules\": [\x7b\"id\": \"r_1\", \"operation\": \" Delete \"\x7d], " ++
    "\"n\": 1\x7d\x7d"

theorem told_changes_paddedRemoval :
    ((told .test).runOn {} { replies := [.answer 200 paddedRemoval] }).1 =
      .ok { rules := [⟨"r_1", .remove⟩] } := by
  have hread : Json.read paddedRemoval = .ok (.object [("changes", .object [("rules", .list [.object
      [("id", .text "r_1"), ("operation", .text " Delete ")]]), ("n", .int 1)])]) := by
    decide +kernel
  have hspelled : Operation.Spelled " Delete " .remove := .inr ⟨rfl, by decide +kernel⟩
  refine ((told_changes {} { replies := [.answer 200 paddedRemoval] } .test).read_iff rfl hread rfl
    rfl _).mpr ?_
  exact ⟨_, rfl, .inl ⟨rfl, rfl⟩, .inl ⟨rfl, rfl⟩, .inl ⟨rfl, rfl⟩, .inl ⟨rfl, rfl⟩,
    .inr ⟨_, rfl, .cons ⟨_, rfl, rfl, _, rfl, hspelled⟩ .nil⟩⟩

end Ledger

end Lifecycle
