import Mathlib.Data.List.TakeDrop
import Lifecycle.Console.Session
import Lifecycle.Proofs.CommandLines
import Lifecycle.Proofs.Table

/-!
# Promotions of the console

Whatever is typed and however the service replies, a promotion fetches one preview and sends at most
one promotion behind it, of what the preview proposes, and only where it was confirmed. It stops
before only where there is nothing to promote, no preview that can be gone through, or no
confirmation (`Console.promotion_confirmed`).

The ways it can end are told by `Console.Ends`: first for what is done once it was agreed to
(`Console.ends_answered`), then for what is done with a preview (`Console.ends_promotePreview`),
then for the command (`Console.ends_runCommand`). The agreement is told by `Console.exists_agreed`,
what is sent by `Console.exists_of_selection`, and what was said on the command line by
`Console.confirming_of_parse`.
-/

namespace Lifecycle.Console

variable {α β : Type} {t : Transcript}

/-! ### Runs of sessions -/

namespace Session

/-- What a session comes to behind a transcript, and the transcript after it. -/
def runOn (work : Session α) (t : Transcript) : Except Fault α × Transcript := work t

theorem runOn_pure (value : α) : runOn (pure value) t = (.ok value, t) := rfl

theorem runOn_bind (work : Session α) (next : α → Session β) :
    runOn (work >>= next) t =
      match runOn work t with
      | (.ok value, later) => runOn (next value) later
      | (.error fault, later) => (.error fault, later) := by
  simp only [runOn, bind, ExceptT.bind, ExceptT.mk, StateT.bind]
  rcases work t with ⟨_ | _, _⟩ <;> rfl

theorem runOn_ofExcept (result : Except Fault α) : runOn (ofExcept result) t = (result, t) := by
  cases result <;> rfl

theorem runOn_print (value : Json) :
    runOn (print value) t = (.ok (), { t with printed := t.printed ++ [.value value] }) := rfl

/-- A transcript with one more request, and the replies behind that to it. -/
def sent (t : Transcript) (request : Exchange) : Transcript :=
  { t with replies := (Reply.next t.replies).2, requests := t.requests ++ [request] }

theorem runOn_call (method url : String) (body : Json) :
    runOn (call method url body) t = (outcome url (Reply.next t.replies).1,
      sent t { method, url, json := body, timeout := .int timeout }) := by
  have hsend : ∀ request, runOn (send request) t =
      (.ok (Reply.next t.replies).1, sent t request) := fun _ => rfl
  rw [call, runOn_bind, hsend]
  dsimp only
  cases outcome url (Reply.next t.replies).1 <;> rfl

/-- A question is put before anything else happens, and answered if anything is typed. -/
theorem runOn_ask (question : String) :
    ∃ later, later.replies = t.replies ∧ later.requests = t.requests ∧
      runOn (ask question) t =
        (if t.typed.isEmpty then .error .endOfInput
          else .ok (String.ofList (t.typed.takeWhile (· != '\n'))), later) := by
  obtain ⟨replies, typed, requests, printed⟩ := t
  set asked := printed ++ [.words question] with hasked
  cases typed with
  | nil => exact ⟨⟨replies, [], requests, asked⟩, rfl, rfl, rfl⟩
  | cons c rest =>
    refine ⟨⟨replies, ((c :: rest).dropWhile (· != '\n')).drop 1, requests, asked⟩, rfl, rfl, ?_⟩
    show (Except.ok (String.ofList ((c :: rest).span (· != '\n')).1),
      Transcript.mk replies (((c :: rest).span (· != '\n')).2.drop 1) requests asked) = _
    rw [List.span_eq_takeWhile_dropWhile]
    rfl

end Session

/-! ### Promotions -/

/-- The request for the preview of a space. -/
def previewRequest (base space : String) : Exchange :=
  { method := "GET", url := base ++ "/promote/" ++ space, timeout := .int timeout }

/-- The request to promote. -/
def promoteRequest (base : String) (payload : Json) : Exchange :=
  { method := "POST", url := base ++ "/promote", json := payload, timeout := .int timeout }

/-- A reply in a row has the status of success, and a body that is a value. -/
def Succeeds (replies : List Reply) (position : Nat) (value : Json) : Prop :=
  ∃ body, replies[position]? = some (.answer 200 body) ∧ Json.read body = .ok value

/-- The first reply has a preview in it. -/
def Previewed (replies : List Reply) (preview : Json) : Prop :=
  ∃ fields : Table Json, Succeeds replies 0 (.object fields) ∧
    Table.get? fields "response" = some preview

/-- A preview says that there is nothing to promote, and has no change of the policy. -/
inductive NothingToPromote : Json → Prop
  | intro {fields promote changes : Table Json}
    (said : (Json.under fields "nothing_to_promote").truthy = true)
    (promote_eq : Table.get? fields "promote" = some (.object promote))
    (changes_eq : Table.get? promote "changes" = some (.object changes))
    (policy : (Json.under changes "policy").truthy = false) : NothingToPromote (.object fields)

theorem part_eq_ok_iff {value found : Json} {key : String} :
    part value key = .ok found ↔
      ∃ fields, value = .object fields ∧ Json.under fields key = found := by
  cases value <;> simp [part]

theorem member_eq_ok_iff {value found : Json} {key : String} :
    member value key = .ok found ↔
      ∃ fields : Table Json, value = .object fields ∧ Table.get? fields key = some found := by
  cases value with
  | object fields => cases hfound : Table.get? fields key <;> simp [member, hfound]
  | _ => simp [member]

theorem nothingToPromote_iff (preview : Json) :
    nothingToPromote preview = .ok true ↔ NothingToPromote preview := by
  rw [nothingToPromote, bind_eq_ok_iff]
  constructor
  · rintro ⟨nothing, hnothing, hrest⟩
    obtain ⟨fields, rfl, rfl⟩ := part_eq_ok_iff.mp hnothing
    cases hsaid : (Json.under fields "nothing_to_promote").truthy with
    | false =>
      rw [hsaid] at hrest
      cases hrest
    | true =>
      rw [hsaid] at hrest
      obtain ⟨promote, hpromote, hrest⟩ := bind_eq_ok_iff.mp hrest
      obtain ⟨changes, hchanges, hrest⟩ := bind_eq_ok_iff.mp hrest
      obtain ⟨policy, hpolicy, hrest⟩ := bind_eq_ok_iff.mp hrest
      obtain ⟨_, hfields, hpromoteAt⟩ := member_eq_ok_iff.mp hpromote
      obtain ⟨promoted, rfl, hchangesAt⟩ := member_eq_ok_iff.mp hchanges
      obtain ⟨changed, rfl, rfl⟩ := part_eq_ok_iff.mp hpolicy
      cases hfields
      exact ⟨hsaid, hpromoteAt, hchangesAt, by simpa using Except.ok.inj hrest⟩
  · rintro ⟨hsaid, hpromote, hchanges, hpolicy⟩
    refine ⟨_, part_eq_ok_iff.mpr ⟨_, rfl, rfl⟩, ?_⟩
    rw [hsaid]
    refine bind_eq_ok_iff.mpr ⟨_, member_eq_ok_iff.mpr ⟨_, rfl, hpromote⟩, ?_⟩
    refine bind_eq_ok_iff.mpr ⟨_, member_eq_ok_iff.mpr ⟨_, rfl, hchanges⟩, ?_⟩
    refine bind_eq_ok_iff.mpr ⟨_, part_eq_ok_iff.mpr ⟨_, rfl, rfl⟩, ?_⟩
    rw [hpolicy]
    rfl

/-- The space and the changes that a preview proposes. What it has not, or has as something that
does not count as given, is taken as empty; the changes may be a list of pairs. -/
inductive Proposes : Json → Json → Table Json → Prop
  | intro {fields promote changes : Table Json}
    (promote_eq : ((Json.under fields "promote").given?).getD (.object []) = .object promote)
    (changes_eq : Scope.clauses (((Json.under promote "changes").given?).getD (.object [])) =
      .ok changes) : Proposes (.object fields) (Json.under promote "space") changes

/-- The list of types names one: a part between commas, without the blanks around it. -/
def Names (only type : String) : Prop := type ≠ "" ∧ type ∈ (Text.split ',' only).map Text.trim

theorem mem_toList {only type : String} : type ∈ toList (.text only) ↔ Names only type := by
  rw [toList, List.mem_filter, Names, and_comm]
  simp

/-- What is sent of some changes: for each type what is proposed, or nothing if types are named and
this one is not. -/
structure Selects (only : String) (changes sent : Table Json) : Prop where
  keys : Table.keys sent = Table.keys changes
  kept : ∀ type proposed, Table.get? changes type = some proposed →
    ((∀ other, ¬ Names only other) ∨ Names only type) → Table.get? sent type = some proposed
  emptied : ∀ type ∈ Table.keys changes, (∃ other, Names only other) → ¬ Names only type →
    Table.get? sent type = some (.list [])

theorem get?_map_fields (value : String → Json → Json) (changes : Table Json) (type : String) :
    Table.get? (changes.map fun field => (field.1, value field.1 field.2)) type =
      (Table.get? changes type).map (value type) := by
  induction changes with
  | nil => rfl
  | cons field rest ih =>
    rw [List.map_cons, Table.get?, Table.get?, ih]
    by_cases hsame : field.1 = type
    · subst hsame
      rw [if_pos rfl, if_pos rfl]
      rfl
    · rw [if_neg hsame, if_neg hsame]

theorem selects_selectedChanges (only : String) (changes : Table Json) :
    Selects only changes (selectedChanges changes (toList (.text only))) := by
  -- a list that names no type stands for all of them
  by_cases hnone : toList (.text only) = []
  · have hnames : ∀ other, ¬ Names only other := by
      intro other hother
      rw [← mem_toList, hnone] at hother
      cases hother
    rw [selectedChanges, hnone]
    exact ⟨rfl, fun type proposed hproposed _ => hproposed,
      fun type _ ⟨other, hother⟩ => absurd hother (hnames other)⟩
  · obtain ⟨name, hname⟩ := List.exists_mem_of_ne_nil _ hnone
    rw [selectedChanges, if_neg (by simpa using hnone)]
    have hget := get?_map_fields (fun type proposed =>
      if (toList (.text only)).contains type then proposed else .list []) changes
    refine ⟨by rw [Table.keys, List.map_map]; rfl, fun type proposed hproposed hkept => ?_,
      fun type htype _ hother => ?_⟩
    · have hnamed : type ∈ toList (.text only) := by
        rcases hkept with hall | hnamed
        · exact absurd (mem_toList.mp hname) (hall name)
        · exact mem_toList.mpr hnamed
      rw [hget, hproposed, Option.map_some, if_pos (List.contains_iff_mem.mpr hnamed)]
    · obtain ⟨proposed, hproposed⟩ : ∃ proposed, Table.get? changes type = some proposed := by
        rw [← Option.isSome_iff_exists]
        exact (Table.has_eq_true_iff changes type).mpr htype
      rw [hget, hproposed, Option.map_some, if_neg]
      rwa [List.contains_iff_mem, mem_toList]

theorem partOrEmpty_eq_ok_iff {value found : Json} {key : String} :
    partOrEmpty value key = .ok found ↔ ∃ fields, value = .object fields ∧
      ((Json.under fields key).given?).getD (.object []) = found := by
  cases value <;> simp [partOrEmpty, part, Except.map]

/-- What is sent is selected from what the preview proposes. -/
theorem exists_of_selection {preview payload : Json} {only : String}
    (h : selection preview (toList (.text only)) = .ok payload) :
    ∃ space changes sent, Proposes preview space changes ∧ Selects only changes sent ∧
      payload = .object [("space", space), ("changes", .object sent)] := by
  rw [selection] at h
  obtain ⟨promote, hpromote, h⟩ := bind_eq_ok_iff.mp h
  obtain ⟨found, hfound, h⟩ := bind_eq_ok_iff.mp h
  obtain ⟨changes, hchanges, h⟩ := bind_eq_ok_iff.mp h
  obtain ⟨space, hspace, h⟩ := bind_eq_ok_iff.mp h
  obtain ⟨fields, rfl, hpromoteAt⟩ := partOrEmpty_eq_ok_iff.mp hpromote
  obtain ⟨promoted, rfl, rfl⟩ := partOrEmpty_eq_ok_iff.mp hfound
  obtain ⟨_, hsame, rfl⟩ := part_eq_ok_iff.mp hspace
  cases hsame
  exact ⟨_, changes, _, .intro hpromoteAt hchanges, selects_selectedChanges only changes,
    (Except.ok.inj h).symm⟩

/-- What a preview proposes can be selected from. -/
theorem exists_selection {preview space : Json} {changes : Table Json}
    (h : Proposes preview space changes) (only : List String) :
    ∃ payload, selection preview only = .ok payload := by
  obtain ⟨hpromote, hchanges⟩ := h
  exact ⟨_, bind_eq_ok_iff.mpr ⟨_, partOrEmpty_eq_ok_iff.mpr ⟨_, rfl, hpromote⟩,
    bind_eq_ok_iff.mpr ⟨_, partOrEmpty_eq_ok_iff.mpr ⟨_, rfl, rfl⟩,
      bind_eq_ok_iff.mpr ⟨_, hchanges, rfl⟩⟩⟩⟩

/-- A preview can be gone through: it tells whether there is something to promote and what, and has
a summary. -/
structure Readable (preview : Json) : Prop where
  nothing : ∃ nothing, nothingToPromote preview = .ok nothing
  shown : ∃ shown, summary preview = .ok shown
  proposed : ∃ space changes, Proposes preview space changes

/-- What is typed first, up to the end of the line, says yes: `y` or `yes`, in letters of any case
and with blanks around it. -/
def SaysYes (typed : String) : Prop :=
  Text.lower (Text.trim (String.ofList (typed.toList.takeWhile (· != '\n')))) ∈ ["y", "yes"]

/-- How a promotion ends, and the requests it has sent by then. -/
inductive Ends (base space only : String) (confirmed : Prop) (replies : List Reply)
    (typed : String) : Except Fault Nat → List Exchange → Prop
  /-- It stops where there is no preview that can be gone through, or it was not confirmed, and not
  with the code of success. -/
  | stopped {outcome : Except Fault Nat} (failed : outcome ≠ .ok 0)
    (unmet : ∀ preview, Previewed replies preview → Readable preview →
      ¬(confirmed ∨ SaysYes typed)) :
    Ends base space only confirmed replies typed outcome [previewRequest base space]
  /-- It stops behind a preview that has nothing to promote. -/
  | idle {preview : Json} (previewed : Previewed replies preview)
    (nothing : NothingToPromote preview) :
    Ends base space only confirmed replies typed (.ok 0) [previewRequest base space]
  /-- It sends what it has selected from the preview, which was confirmed. -/
  | committed {preview proposed : Json} {changes sent : Table Json} {outcome : Except Fault Nat}
    (previewed : Previewed replies preview) (something : ¬ NothingToPromote preview)
    (agreed : confirmed ∨ SaysYes typed) (proposes : Proposes preview proposed changes)
    (selects : Selects only changes sent)
    (succeeds : outcome = .ok 0 ↔ ∃ value, Succeeds replies 1 value) :
    Ends base space only confirmed replies typed outcome
      [previewRequest base space,
       promoteRequest base (.object [("space", proposed), ("changes", .object sent)])]

theorem outcome_eq_success_iff {url : String} {reply : Reply} {value : Json} :
    outcome url reply = .ok (some 200, value) ↔
      ∃ body, reply = .answer 200 body ∧ Json.read body = .ok value := by
  cases reply with
  | broken fault =>
    rw [outcome]
    split_ifs <;> simp
  | answer status body =>
    rw [outcome]
    cases hread : Json.read body <;> simp [hread]

theorem succeeds_iff_next {replies : List Reply} {position : Nat} {value : Json} {url : String} :
    Succeeds replies position value ↔
      outcome url (Reply.next (replies.drop position)).1 = .ok (some 200, value) := by
  rw [outcome_eq_success_iff, Succeeds]
  cases hrest : replies.drop position with
  | nil =>
    -- what comes back where no replies are left is no success
    have hnone : replies[position]? = none := by
      rw [List.getElem?_eq_none_iff]
      exact List.drop_eq_nil_iff.mp hrest
    simp [hnone, Reply.next, Reply.exhausted]
  | cons reply rest =>
    have hsome : replies[position]? = some reply := by
      rw [← List.head?_drop, hrest]
      rfl
    simp [hsome, Reply.next]

/-- The preview is what the reply to the first request has in it. -/
theorem previewed_iff {replies : List Reply} {preview : Json} {url : String} :
    Previewed replies preview ↔ ∃ body, outcome url (Reply.next replies).1 = .ok (some 200, body) ∧
      member body "response" = .ok preview := by
  have hfirst (body : Json) : Succeeds replies 0 body ↔
      outcome url (Reply.next replies).1 = .ok (some 200, body) := succeeds_iff_next
  simp only [Previewed, hfirst, member_eq_ok_iff]
  constructor
  · rintro ⟨fields, hreply, hresponse⟩
    exact ⟨_, hreply, fields, rfl, hresponse⟩
  · rintro ⟨_, hreply, fields, rfl, hresponse⟩
    exact ⟨fields, hreply, hresponse⟩

theorem Previewed.unique {replies : List Reply} {preview other : Json}
    (h : Previewed replies preview) (h' : Previewed replies other) : other = preview := by
  obtain ⟨body, hreply, hmember⟩ := (@previewed_iff replies preview "").mp h
  obtain ⟨_, hreply', hmember'⟩ := (@previewed_iff replies other "").mp h'
  rw [hreply] at hreply'
  cases hreply'
  rw [hmember] at hmember'
  exact (Except.ok.inj hmember').symm

section

variable {base space only typed : String} {replies : List Reply} {preview : Json}

open Session

/-- A promotion goes on where it was confirmed before, or is when it asks. -/
theorem exists_agreed (confirmed : Bool) (preview : Json) (htyped : t.typed = typed.toList) :
    ∃ outcome later, later.replies = t.replies ∧ later.requests = t.requests ∧
      runOn (if confirmed then pure true else confirm preview) t = (outcome, later) ∧
        (outcome = .ok true → confirmed = true ∨ SaysYes typed) ∧
          (Readable preview → confirmed = true ∨ SaysYes typed → outcome = .ok true) := by
  cases confirmed with
  | true => exact ⟨_, t, rfl, rfl, runOn_pure true, fun _ => .inl rfl, fun _ _ => rfl⟩
  | false =>
    rw [if_neg Bool.false_ne_true, confirm, runOn_bind, runOn_ofExcept]
    cases hsummary : summary preview with
    | error fault =>
      refine ⟨.error fault, t, rfl, rfl, rfl, (fun hok => by cases hok), fun hreadable _ => ?_⟩
      obtain ⟨shown, hshown⟩ := hreadable.shown
      rw [hsummary] at hshown
      cases hshown
    | ok shown =>
      dsimp only
      rw [runOn_bind, runOn_print]
      dsimp only
      rw [runOn_bind]
      obtain ⟨later, hreplies, hrequests, hrun⟩ := runOn_ask
        (t := { t with printed := t.printed ++ [.value shown] }) "Promote these changes? [y/N] "
      rw [hrun]
      dsimp only
      rw [htyped]
      have hyes : saysYes (String.ofList (typed.toList.takeWhile (· != '\n'))) = true ↔
          SaysYes typed := List.contains_iff_mem
      split_ifs with hend
      -- the input may end before there is an answer
      · refine ⟨_, later, hreplies, hrequests, rfl, (fun hok => by cases hok), fun _ hagreed => ?_⟩
        rw [← hyes, List.isEmpty_iff.mp hend] at hagreed
        exact absurd hagreed (by decide +kernel)
      · refine ⟨_, later, hreplies, hrequests, rfl, fun hok => .inr (hyes.mp (Except.ok.inj hok)),
          fun _ hagreed => ?_⟩
        exact congrArg Except.ok (hyes.mpr (hagreed.resolve_left not_false))

theorem exists_callAndPrint (method url : String) (body : Json) :
    ∃ later, later.requests = t.requests ++
        [{ method, url, json := body, timeout := .int timeout }] ∧
      runOn (callAndPrint method url body) t =
        ((outcome url (Reply.next t.replies).1).map fun found => exitCode found.1, later) := by
  rw [callAndPrint, runOn_bind, runOn_call]
  cases outcome url (Reply.next t.replies).1 with
  | error fault => exact ⟨_, rfl, rfl⟩
  | ok found => exact ⟨_, rfl, rfl⟩

/-- The exit code behind a call is that of success exactly if the call was. -/
theorem map_exitCode_eq_iff {result : Except Fault (Option Int × Json)} :
    (result.map fun found => exitCode found.1) = .ok 0 ↔
      ∃ value, result = .ok (some 200, value) := by
  rcases result with fault | ⟨status, value⟩
  · simp [Except.map]
  · simp [Except.map, exitCode]

/-- What is done with the answer whether to promote a preview. -/
def answered (base only : String) (preview : Json) (agreed : Bool) : Session Nat := do
  if !agreed then return 1
  let payload ← ofExcept (selection preview (toList (.text only)))
  callAndPrint "POST" (base ++ "/promote") payload

theorem promotePreview_eq (confirmed : Bool) :
    promotePreview base only confirmed preview = (do
      if ← ofExcept (nothingToPromote preview) then
        print nothingPromoted
        pure 0
      else (if confirmed then pure true else confirm preview) >>= answered base only preview) := by
  cases confirmed <;> rfl

/-- Behind a preview a promotion stops if that cannot be gone through, or was not confirmed. -/
theorem Previewed.stopped {confirmed : Prop} {outcome : Except Fault Nat}
    (h : Previewed replies preview) (failed : outcome ≠ .ok 0)
    (unmet : Readable preview → ¬(confirmed ∨ SaysYes typed)) :
    Ends base space only confirmed replies typed outcome [previewRequest base space] :=
  .stopped failed fun _ hother => h.unique hother ▸ unmet

/-- A promotion is sent if it was agreed to. -/
theorem ends_answered {confirmed agreed : Bool} (hpreviewed : Previewed replies preview)
    (hsomething : ¬ NothingToPromote preview)
    (hagreed : agreed = true → confirmed = true ∨ SaysYes typed)
    (hmet : Readable preview → confirmed = true ∨ SaysYes typed → agreed = true)
    (hreplies : t.replies = replies.drop 1)
    (hrequests : t.requests = [previewRequest base space]) :
    Ends base space only (confirmed = true) replies typed
      (runOn (answered base only preview agreed) t).1
      (runOn (answered base only preview agreed) t).2.requests := by
  rw [answered]
  cases agreed with
  | false =>
    show Ends base space only (confirmed = true) replies typed (.ok 1) t.requests
    rw [hrequests]
    exact hpreviewed.stopped (by simp) fun hreadable hconfirmed =>
      Bool.false_ne_true (hmet hreadable hconfirmed)
  | true =>
    rw [if_neg (by decide), runOn_bind, runOn_ofExcept]
    cases hpayload : selection preview (toList (.text only)) with
    | error fault =>
      show Ends base space only (confirmed = true) replies typed (.error fault) t.requests
      rw [hrequests]
      refine hpreviewed.stopped (by simp) fun hreadable => ?_
      obtain ⟨_, _, hproposes⟩ := hreadable.proposed
      obtain ⟨payload, hselected⟩ := exists_selection hproposes (toList (.text only))
      rw [hpayload] at hselected
      cases hselected
    | ok payload =>
      obtain ⟨proposed, changes, sent, hproposes, hselects, rfl⟩ := exists_of_selection hpayload
      obtain ⟨last, hlast, hcall⟩ := exists_callAndPrint (t := t) "POST" (base ++ "/promote")
        (.object [("space", proposed), ("changes", .object sent)])
      dsimp only
      rw [hcall, hlast, hrequests, hreplies]
      refine .committed hpreviewed hsomething (hagreed rfl) hproposes hselects ?_
      rw [map_exitCode_eq_iff]
      exact exists_congr fun value => succeeds_iff_next.symm

/-- Behind its preview a promotion ends in one of the ways. -/
theorem ends_promotePreview (confirmed : Bool) (hpreviewed : Previewed replies preview)
    (hreplies : t.replies = replies.drop 1) (hrequests : t.requests = [previewRequest base space])
    (htyped : t.typed = typed.toList) :
    Ends base space only (confirmed = true) replies typed
      (runOn (promotePreview base only confirmed preview) t).1
      (runOn (promotePreview base only confirmed preview) t).2.requests := by
  rw [promotePreview_eq, runOn_bind, runOn_ofExcept]
  cases hnothing : nothingToPromote preview with
  | error fault =>
    rw [hrequests]
    refine hpreviewed.stopped (by simp) fun hreadable => ?_
    obtain ⟨nothing, hfound⟩ := hreadable.nothing
    rw [hnothing] at hfound
    cases hfound
  | ok nothing =>
    cases nothing with
    | true =>
      show Ends base space only (confirmed = true) replies typed (.ok 0) t.requests
      rw [hrequests]
      exact .idle hpreviewed ((nothingToPromote_iff preview).mp hnothing)
    | false =>
      have hsomething : ¬ NothingToPromote preview := by
        rw [← nothingToPromote_iff, hnothing]
        simp
      obtain ⟨outcome, later, hlater, hsent, hrun, hyes, hmet⟩ :=
        exists_agreed confirmed preview htyped
      dsimp only
      rw [if_neg Bool.false_ne_true, runOn_bind, hrun]
      rw [← hlater] at hreplies
      rw [← hsent] at hrequests
      cases outcome with
      | error fault =>
        dsimp only
        rw [hrequests]
        refine hpreviewed.stopped (by simp) fun hreadable hconfirmed => ?_
        cases hmet hreadable hconfirmed
      | ok agreed =>
        exact ends_answered hpreviewed hsomething (fun hagreed => hyes (by rw [hagreed]))
          (fun hreadable hconfirmed => Except.ok.inj (hmet hreadable hconfirmed)) hreplies hrequests

/-- A promotion ends in one of the ways. -/
theorem ends_runCommand (base space only : String) (confirmed : Bool) (replies : List Reply)
    (typed : String) :
    Ends base space only (confirmed = true) replies typed
      (runOn (runCommand base (.promote space only confirmed))
        { replies, typed := typed.toList }).1
      (runOn (runCommand base (.promote space only confirmed))
        { replies, typed := typed.toList }).2.requests := by
  have hpreview (preview : Json) := @previewed_iff replies preview (base ++ "/promote/" ++ space)
  rw [runCommand, withPreview, runOn_bind, runOn_call]
  dsimp only
  cases hreply : outcome (base ++ "/promote/" ++ space) (Reply.next replies).1 with
  | error fault =>
    refine .stopped (by simp) fun preview hpreviewed => ?_
    rw [hpreview, hreply] at hpreviewed
    obtain ⟨_, hother, -⟩ := hpreviewed
    cases hother
  | ok found =>
    obtain ⟨status, body⟩ := found
    by_cases hstatus : status = some 200
    · subst hstatus
      dsimp only
      rw [if_neg (by decide), runOn_bind, runOn_ofExcept]
      cases hmember : member body "response" with
      | error fault =>
        refine .stopped (by simp) fun preview hpreviewed => ?_
        rw [hpreview, hreply] at hpreviewed
        obtain ⟨_, hother, hresponse⟩ := hpreviewed
        cases hother
        rw [hmember] at hresponse
        cases hresponse
      | ok preview =>
        have hpreviewed := (hpreview preview).mpr ⟨body, hreply, hmember⟩
        refine ends_promotePreview confirmed hpreviewed ?_ rfl rfl
        cases replies <;> rfl
    · dsimp only
      rw [if_pos (by simpa using hstatus)]
      show Ends base space only (confirmed = true) replies typed (.ok 1) [previewRequest base space]
      refine .stopped (by simp) fun preview hpreviewed => ?_
      rw [hpreview, hreply] at hpreviewed
      obtain ⟨_, hother, -⟩ := hpreviewed
      cases hother
      exact absurd rfl hstatus

end

/-- A command line that promotes ends in one of the ways, for the service that it names; it counts
as confirmed only where one of its arguments says so. One that is wrong, or that asks for help, runs
no command and sends nothing. -/
theorem promotion_confirmed (arguments : List String) (replies : List Reply) (typed : String) :
    (∀ apiUrl space only confirmed,
      parse arguments = .ok ⟨apiUrl, .promote space only confirmed⟩ →
        Ends (Text.trimEnd '/' apiUrl) space only
          (confirmed = true ∧ ∃ argument ∈ arguments, Confirming argument) replies typed
          (run arguments replies typed).1 (run arguments replies typed).2.requests) ∧
    ∀ refusal, parse arguments = .error refusal →
      (run arguments replies typed).1 = .ok refusal.exitCode ∧
        (run arguments replies typed).2.requests = [] := by
  refine ⟨fun apiUrl space only confirmed hparse => ?_, fun refusal hparse => ?_⟩
  · have hconfirmed : (confirmed = true ∧ ∃ argument ∈ arguments, Confirming argument) ↔
        confirmed = true := and_iff_left_of_imp fun hsaid => by
      subst hsaid
      exact confirming_of_parse hparse
    rw [hconfirmed, run, session, hparse]
    exact ends_runCommand (Text.trimEnd '/' apiUrl) space only confirmed replies typed
  · rw [run, session, hparse]
    exact ⟨rfl, rfl⟩

/-- A command line that promotes the rules of a space if that is confirmed. -/
def rulesOfDraft : List String :=
  ["--api-url", "http://cm/", "promote", "--space", "draft", "--only", "rules"]

def addedRule : Json := .object [("operation", .text "add"), ("id", .text "r")]

/-- A preview in which a rule and a filter are new, and an answer behind it. -/
def ruleAndFilter : List Reply :=
  [.answer 200 (Reply.bodyOf (.object [("response", .object [("promote", .object
    [("space", .text "draft"), ("changes", .object [("rules", .list [addedRule]),
      ("filters", .list [.object [("operation", .text "add"), ("id", .text "f")]])])])])])),
   .answer 200 (Reply.bodyOf (.bool true))]

/-- The requests by which the rule is promoted, but not the filter. -/
def promotedRule : List Exchange :=
  [previewRequest "http://cm" "draft",
   promoteRequest "http://cm" (.object [("space", .text "draft"),
     ("changes", .object [("rules", .list [addedRule]), ("filters", .list [])])])]

theorem promotion_confirmed_rulesOfDraft :
    Ends "http://cm" "draft" "rules"
      (false = true ∧ ∃ argument ∈ rulesOfDraft, Confirming argument) ruleAndFilter " YES \n"
      (.ok 0) promotedRule ∧
    (run ["promote", "--yes"] ruleAndFilter "").2.requests = [] := by
  have hends := (promotion_confirmed rulesOfDraft ruleAndFilter " YES \n").1 "http://cm/" "draft"
    "rules" false rfl
  have hbase : Text.trimEnd '/' "http://cm/" = "http://cm" := by decide +kernel
  have hdone : ((run rulesOfDraft ruleAndFilter " YES \n").1.toOption,
      (run rulesOfDraft ruleAndFilter " YES \n").2.requests) = (some 0, promotedRule) := by
    decide +kernel
  obtain ⟨hfound, hrequests⟩ := Prod.mk.inj hdone
  have hcode : (run rulesOfDraft ruleAndFilter " YES \n").1 = .ok 0 := by
    rcases hrun : (run rulesOfDraft ruleAndFilter " YES \n").1 with fault | code
    · rw [hrun] at hfound
      cases hfound
    · rw [hrun] at hfound
      exact congrArg Except.ok (Option.some.inj hfound)
  rw [hcode, hrequests, hbase] at hends
  exact ⟨hends, ((promotion_confirmed ["promote", "--yes"] ruleAndFilter "").2 .usage rfl).2⟩

end Lifecycle.Console
