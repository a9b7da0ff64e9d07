import Lifecycle.Proofs.Interleaving
import Lifecycle.Proofs.Labels
import Lifecycle.Proofs.Reordering
import Lifecycle.Proofs.Serving

/-!
# Runs of edits

Requests to edit the policy of `draft` are served one after another, with any bodies and any calls
failing. Whatever a request asks for, it is answered by one edit of the policy that is stored
(`Service.handle_of_draftEdit?`), and an edit leaves behind what it answers
(`Edit.edited_of_work`): the policy that was stored, with the fields that the edit writes and the
time of the write put over it, under the same storage id, and with everything else in its body as it
was. So each edit of a run is read back as it was answered, and one that is not answered with
success leaves the contents (`edits_read_back`). Where no call fails and `draft` has a policy, such
an edit lacks the decoder that it assigns (`Edit.not_hasDecoder_of_work`), or its body does not
pass.

The document must not name a space itself (`PolicyRecord.Plain`), for such a name is relabelled in
what is saved but not in the answer.
-/

namespace Lifecycle

variable {deployment : Deployment} {world later : World} {old new : PolicyRecord} {edit : Edit}

/-! ### What an edit writes -/

/-- The fields of the document that an edit writes. -/
def Edit.written (policy : Policy) : Edit → Table Json
  | .reorder wanted => [("integrations", Json.texts (mergedOrder wanted policy.integrations))]
  | .assign decoder => [("root_decoder", .text (Text.trim decoder))]
  | .update given => given.givenFields
  | .drop ids =>
    [("integrations", Json.texts (policy.integrations.filter fun id => !ids.contains id))]

theorem Edit.fields_apply (edit : Edit) (policy : Policy) :
    (edit.apply policy).fields = Table.putAll policy.fields (edit.written policy) := by
  cases edit with
  | update given =>
    obtain ⟨title, description, author, documentation, references⟩ := given
    cases title <;> cases description <;> cases author <;> cases documentation <;>
      cases references <;> rfl
  | _ => rfl

/-- What every edit keeps of a policy: its storage id, the id in its document and the fields that
are not known, and all of its body but the document, the space and the hash. -/
structure PolicyRecord.Keeps (old new : PolicyRecord) : Prop where
  docId : new.docId = old.docId
  id : new.document.id = old.document.id
  extra : new.document.extra = old.document.extra
  others : ∀ key, key ≠ "document" → key ≠ "space" → key ≠ "hash" →
    new.source.get? key = old.source.get? key

/-- A policy that an edit has made of another one: the fields that the edit writes are put over
those of its document, and the time of the write. -/
structure PolicyRecord.Edited (old : PolicyRecord) (edit : Edit) (new : PolicyRecord) : Prop
    extends old.Keeps new where
  fields : ∃ time : Instant, new.document.fields =
    (Table.putAll old.document.fields (edit.written old.document)).put "modified"
      (.text time.toText)
  stored : new.source.get? "document" = some (.object new.document.fields)

theorem PolicyRecord.Keeps.refl (record : PolicyRecord) : record.Keeps record :=
  ⟨rfl, rfl, rfl, fun _ _ _ _ => rfl⟩

theorem PolicyRecord.Keeps.trans {last : PolicyRecord} (h : old.Keeps new) (h' : new.Keeps last) :
    old.Keeps last where
  docId := h'.docId.trans h.docId
  id := h'.id.trans h.id
  extra := h'.extra.trans h.extra
  others key hdocument hspace hhash :=
    (h'.others key hdocument hspace hhash).trans (h.others key hdocument hspace hhash)

namespace Policies

theorem get?_savedBody_of_ne {space : Space} {key : String} (hdocument : key ≠ "document")
    (hspace : key ≠ "space") (hhash : key ≠ "hash") (document : Policy) (base : Table Json) :
    (savedBody space document base).get? key = base.get? key := by
  have hput : (base.put "document" document.toJson).get? key = base.get? key := by
    rw [Table.get?_put, if_neg hdocument.symm]
  rw [savedBody, Table.get?_put, if_neg hhash.symm, Content.get?_relabelled_of_ne hspace hdocument,
    hput]

theorem fields_stamped (document : Policy) (time : Instant) :
    (stamped document time).fields = document.fields.put "modified" (.text time.toText) := rfl

end Policies

/-- Whether the document of a policy does not name a space. -/
def PolicyRecord.Plain (record : PolicyRecord) : Prop :=
  (Content.documentValue record.source).get? "space" = none

/-- A world that requests can be served in, with a plain document as the policy of `draft`, if it
has one. -/
structure World.PlainDraft (world : World) : Prop where
  standing : world.Standing
  plain : ∀ record, Policies.stored? world.memory.policies .draft = .ok (some record) →
    record.Plain

namespace Edit

theorem id_apply (edit : Edit) (policy : Policy) : (edit.apply policy).id = policy.id := by
  cases edit <;> rfl

theorem extra_apply (edit : Edit) (policy : Policy) :
    (edit.apply policy).extra = policy.extra := by
  cases edit <;> rfl

/-- The policy that is saved by an edit of a plain document, as it is read back. -/
theorem edited_savedRecord {docs : Documents}
    (hstored : Policies.stored? docs .draft = .ok (some old)) (hplain : old.Plain) (edit : Edit)
    (time : Instant) :
    let new := Policies.savedRecord .draft (edit.apply old.document) (some old) none time
    old.Edited edit new ∧ new.Plain ∧ new.document.reread .draft = new.document := by
  obtain ⟨-, -, hcheck⟩ := Documents.stored?_eq_some hstored
  set document := Policies.stamped (edit.apply old.document) time with hdocument
  have hextra : document.extra = old.document.extra := extra_apply edit old.document
  have hspace : document.fields.get? "space" = none :=
    calc document.fields.get? "space"
      _ = document.extra.get? "space" := rfl
      _ = old.document.fields.get? "space" := by rw [hextra]; rfl
      _ = none := by rw [Policy.get?_space_fields hcheck, hplain]
  have hrelabelled : Content.relabelledField document.fields Space.draft.name =
      document.fields := by
    rw [Content.relabelledField, hspace]
  refine ⟨⟨⟨rfl, id_apply edit old.document, hextra, ?_⟩, ⟨time, ?_⟩, ?_⟩, ?_, ?_⟩
  · intro key hkey hne hhash
    exact Policies.get?_savedBody_of_ne hkey hne hhash document old.source
  · rw [← fields_apply]
    exact Policies.fields_stamped _ time
  · show (Policies.savedBody .draft document old.source).get? "document" = _
    rw [Policies.get?_document_savedBody, hrelabelled]
    rfl
  · show Json.get? (Content.documentValue (Policies.savedBody .draft document old.source)) "space" =
      none
    rw [Policies.documentValue_savedBody, hrelabelled]
    exact hspace
  · refine Policy.reread_of_plain ?_ hspace .draft
    rw [hextra]
    exact Policy.extra_of_check hcheck

/-- An edit that succeeds answers the policy that it leaves behind. -/
theorem edited_of_work (h : deployment.Standard) (hworld : world.PlainDraft)
    (hrun : edit.work.runOn deployment world = (.ok new, later)) :
    ∃ old, Policies.stored? world.memory.policies .draft = .ok (some old) ∧
      Policies.stored? later.memory.policies .draft = .ok (some new) ∧
      old.Edited edit new ∧ later.PlainDraft := by
  rw [work_eq] at hrun
  obtain ⟨old, middle, hread, hwrite⟩ := Work.runOn_bind_ok hrun
  obtain ⟨hstored, hafter⟩ := stored?_of_read h hworld.standing hread
  obtain ⟨time, rfl, hsaved⟩ := saved_of_write h hwrite
  have hwhole := hafter.trans hsaved
  rw [List.nil_append] at hwhole
  obtain ⟨hedited, hplain, hreread⟩ :=
    edited_savedRecord hstored (hworld.plain old hstored) edit time
  obtain ⟨-, hlater⟩ := Policies.saved_after hstored hwhole
  have hback : Policies.stored? later.memory.policies .draft = .ok (some
      (Policies.savedRecord .draft (edit.apply old.document) (some old) none time)) := by
    rw [hlater]
    exact congrArg (fun document => Except.ok (some { Policies.savedRecord .draft
      (edit.apply old.document) (some old) none time with document })) hreread
  refine ⟨old, hstored, hback, hedited, hworld.standing.after hwhole, fun record hrecord => ?_⟩
  rw [hback] at hrecord
  rwa [← Option.some.inj (Except.ok.inj hrecord)]

/-- Whether `draft` has the root decoder that an edit assigns, if it assigns one. -/
def HasDecoder (memory : Memory) : Edit → Prop
  | .assign decoder =>
    (Text.trim decoder).isEmpty = true ∨
      Gate.hasDecoder (memory.entities .decoders) .draft (Text.trim decoder) = true
  | _ => True

theorem performs_read (h : deployment.Standard) (hworld : world.Standing) {record : PolicyRecord}
    (hrecord : Policies.stored? world.memory.policies .draft = .ok (some record)) (edit : Edit) :
    edit.read.Performs deployment world [] (.ok record) := by
  have heditable : ∀ action, Space.draft.allows action = true →
      (Policies.editable .draft action).Performs deployment world [] (.ok record) :=
    fun action hallowed => Policies.performs_editable h hworld hallowed hrecord
  cases edit with
  | reorder wanted => exact heditable .rearrangeIntegrations (by decide)
  | assign decoder => exact heditable .defineRootDecoder (by decide)
  | update given => exact heditable .edit (by decide)
  | drop ids =>
    have hget : (Policies.get? .draft).Performs deployment world [] (.ok (some record)) := by
      rw [← hrecord]
      exact Policies.performs_get? h hworld .draft
    exact hget.read_bind fun _ _ => Work.performs_pure record

theorem performs_write (h : deployment.Standard) (hworld : world.Standing) (record : PolicyRecord)
    {edit : Edit} (hdecoder : edit.HasDecoder world.memory) :
    ∃ time, (edit.write record).Performs deployment world
      [Policies.saveCall .draft (edit.apply record.document) (some record) none time]
      (.ok (Policies.savedRecord .draft (edit.apply record.document) (some record) none time)) := by
  cases edit with
  | assign decoder =>
    rw [write]
    dsimp only
    split
    · rename_i hblank
      have hhas := hdecoder.resolve_left (by simpa using hblank)
      have hexists := Gate.performs_decoderExists h hworld .draft (Text.trim decoder)
      rw [hhas] at hexists
      exact hexists.read_bind_exists fun later _ =>
        Policies.performs_save h .draft _ (some record) none
    · exact Policies.performs_save h .draft _ (some record) none
  | _ => exact Policies.performs_save h .draft _ (some record) none

/-- An edit saves the policy that it makes of the one that is stored. -/
theorem performs_work (h : deployment.Standard) (hworld : world.Standing) {record : PolicyRecord}
    (hrecord : Policies.stored? world.memory.policies .draft = .ok (some record))
    (hdecoder : edit.HasDecoder world.memory) :
    ∃ time, edit.work.Performs deployment world
      [Policies.saveCall .draft (edit.apply record.document) (some record) none time]
      (.ok (Policies.savedRecord .draft (edit.apply record.document) (some record) none time)) := by
  rw [work_eq]
  refine (performs_read h hworld hrecord edit).read_bind_exists fun later hlater => ?_
  rw [← hlater.memory_eq] at hdecoder
  exact performs_write h (hworld.after hlater) record hdecoder

/-- Where no call fails, an edit of a policy fails only for want of a decoder. -/
theorem not_hasDecoder_of_work (h : deployment.Standard) (hworld : world.Standing)
    (hrules : world.rules = []) {record : PolicyRecord}
    (hrecord : Policies.stored? world.memory.policies .draft = .ok (some record)) {fault : Fault}
    (hrun : edit.work.runOn deployment world = (.error fault, later)) :
    ¬edit.HasDecoder world.memory := by
  intro hdecoder
  obtain ⟨time, hperforms⟩ := performs_work h hworld hrecord hdecoder
  obtain ⟨last, hsaved, -⟩ := hperforms.run_eq hrules
  rw [hrun] at hsaved
  cases (Prod.mk.inj hsaved).1

/-- An edit ends with a write, or leaves the contents. -/
theorem exists_saves_work (h : deployment.Standard) (hworld : world.Probed) (edit : Edit) :
    ∃ asked, edit.work.Saves deployment world asked := by
  cases edit with
  | reorder wanted => exact ⟨_, Policies.saves_reorder h hworld .draft wanted⟩
  | assign decoder => exact ⟨_, Gate.saves_assign h hworld .draft decoder⟩
  | update given => exact ⟨_, Policies.saves_update h hworld .draft given⟩
  | drop ids =>
    refine ⟨fun _ => True, ?_⟩
    have hread : (Edit.drop ids).read.Reads deployment := by
      refine (Policies.reads_get? h .draft).bind fun found => ?_
      cases found with
      | none => exact Work.reads_throw _
      | some record => exact Work.reads_pure record
    refine hread.bind_saves fun record later _ _ => ?_
    cases Policies.saves_save h .draft ((Edit.drop ids).apply record.document) record with
    | saved value last call run asked after => exact .saved value last call run trivial after
    | left fault last failed run after => exact .left fault last failed run after

/-- An edit that fails leaves the contents. -/
theorem left_of_work (h : deployment.Standard) (hworld : world.Standing) {fault : Fault}
    (hrun : edit.work.runOn deployment world = (.error fault, later)) :
    later.memory = world.memory ∧ later.Standing := by
  obtain ⟨asked, hsaves⟩ := exists_saves_work h hworld.probed edit
  cases hsaves with
  | saved value last call run hasked after =>
    rw [hrun] at run
    cases (Prod.mk.inj run).1
  | left other last failed run after =>
    obtain rfl : later = last := (Prod.mk.inj (hrun.symm.trans run)).2
    exact ⟨after.memory, hworld.after after⟩

end Edit

/-! ### Requests for edits -/

namespace Service

/-- The edit that a request asks for where it leads to a route, and the name of the space whose
policy is to be edited. -/
def editOn? (request : Request) : Route → Option (String × Checked Edit)
  | .updatePolicy name => some (name, Edit.update <$> checkedBody request PolicyUpdate.check)
  | .reorder name =>
    some (name, (fun asked => Edit.reorder asked.integrations) <$>
      checkedBody request ReorderRequest.check)
  | .setRootDecoder name =>
    some (name, (fun asked => Edit.assign asked.rootDecoder) <$>
      checkedBody request RootDecoderUpdate.check)
  | _ => none

/-- The edit of the policy of `draft` that a request asks for, as far as its body passes. -/
def draftEdit? (request : Request) : Option (Checked Edit) := do
  let (name, edit) ← editOn? request (← routeOf? request)
  if Space.ofText? name = some .draft then some edit else none

/-- An edit, with what it answers to a client. -/
def editing (edit : Edit) : Work Json := do
  let record ← edit.work
  pure record.toJson

theorem runOn_editing (edit : Edit) (world : World) :
    (editing edit).runOn deployment world =
      ((edit.work.runOn deployment world).1.map PolicyRecord.toJson,
        (edit.work.runOn deployment world).2) := by
  rw [editing, Work.runOn_bind]
  rcases edit.work.runOn deployment world with ⟨fault | record, later⟩
  · rfl
  · rfl

theorem answering_edit {α : Type} (checked : Checked α) {toEdit : α → Edit} {work : α → Work Json}
    (h : ∀ value, work value = editing (toEdit value)) :
    answering "body" checked work = answering "body" (toEdit <$> checked) editing := by
  have hwork : work = fun value => editing (toEdit value) := funext h
  rw [hwork]
  cases checked <;> rfl

/-- A request for an edit is handled as the edit itself. -/
theorem handle_of_draftEdit? {request : Request} {checked : Checked Edit}
    (h : draftEdit? request = some checked) :
    handle request = answering "body" checked editing := by
  obtain ⟨route, hroute, hrest⟩ := Option.bind_eq_some_iff.mp h
  obtain ⟨⟨name, edit⟩, hedit, hname⟩ := Option.bind_eq_some_iff.mp hrest
  obtain ⟨hspace, rfl⟩ : Space.ofText? name = some .draft ∧ edit = checked := by
    simpa using hname
  have hdraft : Endpoint.space name = .ok .draft := by rw [Endpoint.space, hspace]
  rw [handle_of_route hroute]
  cases route with
  | updatePolicy space =>
    obtain ⟨rfl, rfl⟩ : space = name ∧ _ = edit := by simpa [editOn?] using hedit
    refine answering_edit _ fun update => ?_
    rw [Endpoint.updatePolicy, hdraft]
    rfl
  | reorder space =>
    obtain ⟨rfl, rfl⟩ : space = name ∧ _ = edit := by simpa [editOn?] using hedit
    refine answering_edit _ fun asked => ?_
    rw [Endpoint.reorder, hdraft]
    rfl
  | setRootDecoder space =>
    obtain ⟨rfl, rfl⟩ : space = name ∧ _ = edit := by simpa [editOn?] using hedit
    refine answering_edit _ fun update => ?_
    rw [Endpoint.setRootDecoder, hdraft]
    rfl
  | _ => cases hedit

/-- Whether an answer says that an operation has succeeded. -/
def Answer.isOk (answer : Answer) : Bool := answer.body.get? "ok" == some (.bool true)

end Service

/-- The policy of `draft` as it is read when no call is made to fail. -/
def World.draftPolicy? (world : World) (deployment : Deployment) :
    Except Fault (Option PolicyRecord) :=
  ((Policies.get? .draft).runOn deployment (world.under [])).1

theorem World.Standing.draftPolicy?_eq (h : deployment.Standard) (hworld : world.Standing) :
    world.draftPolicy? deployment = Policies.stored? world.memory.policies .draft :=
  (Policies.yields_get? h (hworld.under []) .draft).eq rfl

namespace Service

/-- What comes of a request for an edit: the edit is made and answered with the policy that is read
afterwards; or it is not answered with success and the contents are left, which happens to an edit
whose body passes only for want of a policy or a decoder, or where calls can fail. -/
inductive EditOutcome (deployment : Deployment) (event : Event) (world : World)
    (answer : Answer) (later : World) : Prop where
  | edited (edit : Edit) (old new : PolicyRecord)
      (asked : draftEdit? event.request = some (.good edit))
      (answered : answer = .ofEnvelope (.success new.toJson))
      (before : world.draftPolicy? deployment = .ok (some old))
      (readBack : later.draftPolicy? deployment = .ok (some new))
      (edited : old.Edited edit new)
  | left (failed : answer.isOk = false) (memory : later.memory = world.memory)
      (cause : event.rules = [] → ∀ edit record,
        draftEdit? event.request = some (.good edit) →
        world.draftPolicy? deployment = .ok (some record) → ¬edit.HasDecoder world.memory)

section

variable (h : deployment.Standard) (hworld : world.PlainDraft)

include h hworld

/-- One more edit that is asked for. -/
theorem serve_edit {event : Event} (hevent : (draftEdit? event.request).isSome = true) :
    ∃ answer, (handle event.request).runOn deployment (world.under event.rules) =
        (.ok answer, serve deployment world event) ∧
      EditOutcome deployment event world answer (serve deployment world event) ∧
      (serve deployment world event).PlainDraft := by
  obtain ⟨checked, hchecked⟩ := Option.isSome_iff_exists.mp hevent
  have hunder : (world.under event.rules).PlainDraft :=
    ⟨hworld.standing.under event.rules, hworld.plain⟩
  have hserve : serve deployment world event =
      ((handle event.request).runOn deployment (world.under event.rules)).2 := rfl
  rw [handle_of_draftEdit? hchecked] at hserve ⊢
  cases checked with
  | bad details =>
    rw [hserve]
    refine ⟨_, rfl, .left rfl rfl fun _ edit _ hother => ?_, hunder⟩
    rw [hchecked] at hother
    cases hother
  | good edit =>
    rw [hserve, runOn_answering_good, runOn_editing]
    rcases hwork : edit.work.runOn deployment (world.under event.rules) with ⟨fault | new, later⟩
    · obtain ⟨hmemory, hlater⟩ := Edit.left_of_work h hunder.standing hwork
      refine ⟨_, rfl, .left rfl hmemory ?_, hlater, ?_⟩
      · intro hrules other record hother hrecord
        obtain rfl : edit = other := Checked.good.inj (Option.some.inj (hchecked.symm.trans hother))
        rw [hworld.standing.draftPolicy?_eq h] at hrecord
        have hlacks := Edit.not_hasDecoder_of_work h hunder.standing hrules hrecord hwork
        exact hlacks
      · rw [hmemory]
        exact hworld.plain
    · obtain ⟨old, hold, hnew, hedited, hlater⟩ := Edit.edited_of_work h hunder hwork
      refine ⟨_, rfl, .edited edit old new hchecked rfl ?_ ?_ hedited, hlater⟩
      · rw [hworld.standing.draftPolicy?_eq h]
        exact hold
      · rw [hlater.standing.draftPolicy?_eq h]
        exact hnew

end

/-- A policy of `draft` is there after a request for an edit, with all that edits keep. -/
theorem EditOutcome.keeps {event : Event} {answer : Answer}
    (houtcome : EditOutcome deployment event world answer later) (h : deployment.Standard)
    (hworld : world.Standing) (hlater : later.Standing)
    (hold : world.draftPolicy? deployment = .ok (some old)) :
    ∃ last, later.draftPolicy? deployment = .ok (some last) ∧ old.Keeps last := by
  cases houtcome with
  | edited edit before new asked answered hbefore hnew hedited =>
    obtain rfl : old = before := Option.some.inj (Except.ok.inj (hold.symm.trans hbefore))
    exact ⟨new, hnew, hedited.toKeeps⟩
  | left failed memory cause =>
    rw [hworld.draftPolicy?_eq h, ← memory, ← hlater.draftPolicy?_eq h] at hold
    exact ⟨old, hold, .refl old⟩

/-! ### Runs -/

/-- What a run of requests for edits does to the policy of `draft`. -/
structure ReadBack (deployment : Deployment) (world : World) (events : List Event) : Prop where
  /-- Each request is answered, with the outcome of an edit. -/
  each : ∀ earlier event later, events = earlier ++ event :: later → ∃ answer,
    (handle event.request).runOn deployment
        ((serveAll deployment world earlier).under event.rules) =
      (.ok answer, serveAll deployment world (earlier ++ [event])) ∧
    EditOutcome deployment event (serveAll deployment world earlier) answer
      (serveAll deployment world (earlier ++ [event]))
  kept : ∀ original, world.draftPolicy? deployment = .ok (some original) →
    ∃ last, (serveAll deployment world events).draftPolicy? deployment = .ok (some last) ∧
      original.Keeps last

/-- What each edit keeps of the policy of `draft`, a run of edits keeps. -/
theorem serveAll_edits (h : deployment.Standard) (hworld : world.PlainDraft) {events : List Event}
    (hevents : ∀ event ∈ events, (draftEdit? event.request).isSome = true) :
    (serveAll deployment world events).PlainDraft ∧
      ∀ original, world.draftPolicy? deployment = .ok (some original) →
        ∃ last, (serveAll deployment world events).draftPolicy? deployment = .ok (some last) ∧
          original.Keeps last := by
  induction events generalizing world with
  | nil => exact ⟨hworld, fun original horiginal => ⟨original, horiginal, .refl original⟩⟩
  | cons event rest ih =>
    obtain ⟨answer, -, houtcome, hserved⟩ :=
      serve_edit h hworld (hevents event List.mem_cons_self)
    obtain ⟨hplain, hkept⟩ := ih hserved fun other hother =>
      hevents other (List.mem_cons_of_mem event hother)
    rw [serveAll_cons]
    refine ⟨hplain, fun original horiginal => ?_⟩
    obtain ⟨next, hnext, hkeeps⟩ := houtcome.keeps h hworld.standing hserved.standing horiginal
    obtain ⟨last, hlast, hkeeps'⟩ := hkept next hnext
    exact ⟨last, hlast, hkeeps.trans hkeeps'⟩

end Service

open Service

/-- However many requests for edits of the policy of `draft` are served, whichever calls fail: each
of them that is answered with success is read back as it was answered, with nothing changed besides
what it writes, and any other leaves the contents. -/
theorem edits_read_back (h : deployment.Standard) (hworld : world.PlainDraft) (events : List Event)
    (hevents : ∀ event ∈ events, (draftEdit? event.request).isSome = true) :
    ReadBack deployment world events where
  each earlier event later hsplit := by
    subst hsplit
    have hearlier : ∀ event ∈ earlier, (draftEdit? event.request).isSome = true :=
      fun event hmem => hevents event (List.mem_append_left _ hmem)
    have hplain := (serveAll_edits h hworld hearlier).1
    obtain ⟨answer, hrun, houtcome, -⟩ := serve_edit h hplain (hevents event (by simp))
    rw [serveAll_concat]
    exact ⟨answer, hrun, houtcome⟩
  kept := (serveAll_edits h hworld hevents).2

/-! ### A run -/

/-- Requests for a title, for an order of the integrations, whose write fails and which is asked for
once more, and for a root decoder that `draft` does not have. -/
def fourEdits : List Event :=
  let put (path body : String) : Request := { method := "PUT", path, body }
  let order := put "/policies/draft/integrations" "\x7b\"integrations\": [\"C\", \"A\"]\x7d"
  [⟨put "/policies/draft" "\x7b\"title\": \"t\", \"author\": null\x7d", []⟩,
   ⟨order, [⟨.upsert, none, 0, 1, .store "down" none⟩]⟩, ⟨order, []⟩,
   ⟨put "/policies/draft/root-decoder" "\x7b\"root_decoder\": \"x\"\x7d", []⟩]

theorem repeatedDraft_plainDraft : repeatedDraft.PlainDraft := by
  refine ⟨repeatedDraft_standing, fun record hrecord => ?_⟩
  obtain ⟨other, hother, hplain⟩ : ∃ other,
      Policies.stored? repeatedDraft.memory.policies .draft = .ok (some other) ∧ other.Plain :=
    ⟨_, rfl, rfl⟩
  rw [hother] at hrecord
  rwa [← Option.some.inj (Except.ok.inj hrecord)]

/-- Two of the requests are answered with success, and both edits are read back. -/
theorem edits_read_back_fourEdits :
    ReadBack {} repeatedDraft fourEdits ∧
      ((serveAll {} repeatedDraft fourEdits).draftPolicy? {}).map
          (Option.map fun record => (record.docId, record.document.title,
            record.document.integrations, record.document.rootDecoder)) =
        .ok (some ("p", "t", ["C", "A", "B"], "")) := by
  refine ⟨edits_read_back Deployment.standard_default repeatedDraft_plainDraft _ ?_, ?_⟩
  · decide +kernel
  · decide +kernel

end Lifecycle
