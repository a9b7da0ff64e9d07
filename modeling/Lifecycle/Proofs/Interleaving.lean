import Lifecycle.Proofs.Edits
import Lifecycle.Proofs.MergedOrder
import Lifecycle.Proofs.PolicyContent

/-!
# Edits of the policy at the same time

An edit of the policy of `draft` is two steps, one that reads the policy and one that writes it as
the edit makes it of what was read (`Edit.work_eq`). Two sessions take turns on one store
(`Sessions.run`), each with an edit. Nothing locks the policy between the two steps of a session, so
that a reordering of the integrations writes back what another session has changed since it was
read. These are the only schedules in which anything is lost (`reorder_keeps_iff`).

A world is too much to go through schedules with. While no session fails, what the two of them come
to is told by the known fields of the policy alone (`Sessions.Tracks`): every turn keeps this
(`Sessions.turn_tracks`), so that every run does (`Sessions.run_tracks`), and the schedules are gone
through with policies only (`Draft.run_interleaving`).
-/

namespace Lifecycle

variable {deployment : Deployment} {world later : World}

/-! ### Edits in two steps -/

/-- Edits of the policy of `draft`: those that there are services for, and that of a session which
saves the policy without some of its integrations. -/
inductive Edit where
  | reorder (wanted : List String)
  | assign (decoder : String)
  | update (given : PolicyUpdate)
  | drop (ids : List String)
  deriving DecidableEq, Repr

namespace Edit

/-- The policy that an edit makes of the one that was read. -/
def apply (policy : Policy) : Edit → Policy
  | .reorder wanted => { policy with integrations := mergedOrder wanted policy.integrations }
  | .assign decoder => { policy with rootDecoder := Text.trim decoder }
  | .update given => given.apply policy
  | .drop ids =>
    { policy with integrations := policy.integrations.filter fun id => !ids.contains id }

/-- The step that reads the policy. -/
def read : Edit → Work PolicyRecord
  | .reorder _ => Policies.editable .draft .rearrangeIntegrations
  | .assign _ => Policies.editable .draft .defineRootDecoder
  | .update _ => Policies.editable .draft .edit
  | .drop _ => do
    match ← Policies.get? .draft with
    | some record => pure record
    | none => throw (.policyNotFound Space.draft.name)

/-- The step that writes the policy, as the edit makes it of the one that was read. -/
def write (record : PolicyRecord) : Edit → Work PolicyRecord
  | .assign decoder => do
    let decoder := Text.trim decoder
    if !decoder.isEmpty then
      if !(← Gate.decoderExists .draft decoder) then
        throw (.decoderNotFound Space.draft.name decoder)
    Policies.save .draft { record.document with rootDecoder := decoder } (some record) none
  | edit => Policies.save .draft (edit.apply record.document) (some record) none

/-- An edit that is not interrupted. -/
def work : Edit → Work PolicyRecord
  | .reorder wanted => Policies.reorder .draft wanted
  | .assign decoder => Gate.assign .draft decoder
  | .update given => Policies.update .draft given
  | .drop ids => do
    let record ← (Edit.drop ids).read
    (Edit.drop ids).write record

/-- The edits are made of their two steps. -/
theorem work_eq (edit : Edit) : edit.work = (do edit.write (← edit.read)) := by
  cases edit <;> rfl

/-- A policy that an edit has read is the one of the space, and nothing is written by that. -/
theorem stored?_of_read (h : deployment.Standard) (hworld : world.Standing) {edit : Edit}
    {record : PolicyRecord} (hrun : edit.read.runOn deployment world = (.ok record, later)) :
    Policies.stored? world.memory.policies .draft = .ok (some record) ∧
      world.After [] none later := by
  -- the services read the policy behind a check that it can be edited
  have heditable : ∀ action,
      (Policies.editable .draft action).runOn deployment world = (.ok record, later) →
        Policies.stored? world.memory.policies .draft = .ok (some record) ∧
          world.After [] none later := by
    intro action hrun
    have hread := Policies.reads_editable h .draft action world
    rw [hrun] at hread
    rw [← Policies.found?_eq hworld.mapped]
    exact ⟨(Policies.found_of_editable h hworld.probed hrun).2, hread⟩
  cases edit with
  | reorder wanted => exact heditable .rearrangeIntegrations hrun
  | assign decoder => exact heditable .defineRootDecoder hrun
  | update given => exact heditable .edit hrun
  | drop ids =>
    obtain ⟨found, middle, hfound, hrest⟩ := Work.runOn_bind_ok hrun
    obtain ⟨hstored, hafter⟩ := (Policies.performs_get? h hworld .draft).of_ok hfound
    cases found with
    | none => cases (Prod.mk.inj hrest).1
    | some other =>
      obtain ⟨hrecord, rfl⟩ := Prod.mk.inj hrest
      rw [hstored, Except.ok.inj hrecord]
      exact ⟨rfl, hafter⟩

/-- What an edit has written is the policy that it makes of the one that was read, in its place. -/
theorem saved_of_write (h : deployment.Standard) {edit : Edit} {record saved : PolicyRecord}
    (hrun : (edit.write record).runOn deployment world = (.ok saved, later)) :
    ∃ time,
      saved = Policies.savedRecord .draft (edit.apply record.document) (some record) none time ∧
      world.After [Policies.saveCall .draft (edit.apply record.document) (some record) none time]
        none later := by
  have hsave : ∀ {start : World} {document : Policy},
      (Policies.save .draft document (some record) none).runOn deployment start =
        (.ok saved, later) →
      ∃ time, saved = Policies.savedRecord .draft document (some record) none time ∧
        start.After [Policies.saveCall .draft document (some record) none time] none later := by
    intro start document hrun
    have hperforms : ∃ time, (Policies.save .draft document (some record) none).Performs deployment
        start _ _ := Policies.performs_save h .draft document (some record) none
    obtain ⟨time, hperforms⟩ := hperforms
    obtain ⟨hsaved, hafter⟩ := hperforms.of_ok hrun
    exact ⟨time, (Except.ok.inj hsaved).symm, hafter⟩
  cases edit with
  | reorder wanted => exact hsave hrun
  | update given => exact hsave hrun
  | drop ids => exact hsave hrun
  | assign decoder =>
    -- a decoder that is not blank is looked for first
    rw [write] at hrun
    dsimp only at hrun
    split at hrun
    · obtain ⟨found, middle, hfound, hrest⟩ := Work.runOn_bind_ok hrun
      have hread := Gate.reads_decoderExists h .draft (Text.trim decoder) world
      rw [hfound] at hread
      cases found with
      | false => cases (Prod.mk.inj hrest).1
      | true =>
        obtain ⟨time, hsaved, hafter⟩ := hsave hrest
        exact ⟨time, hsaved, hread.trans hafter⟩
    · exact hsave hrun

end Edit

/-! ### Documents with one policy of a space -/

/-- Documents of which just one belongs to a space, if any, under a known storage id. -/
structure Documents.PolicyAt (docs : Documents) (space : Space) (key : String) : Prop where
  distinct : Table.Distinct docs
  only : ∀ entry ∈ docs, Scope.belongs space entry.2 = true ↔ entry.1 = key

namespace Documents.PolicyAt

variable {docs : Documents} {space : Space} {key : String} (h : docs.PolicyAt space key)

include h

theorem stored?_eq_some {record : PolicyRecord}
    (hstored : Policies.stored? docs space = .ok (some record)) :
    record.docId = key ∧ Scope.belongs space record.source = true := by
  obtain ⟨hfound, -, -⟩ := Documents.stored?_eq_some hstored
  obtain ⟨hmem, hbelongs⟩ := policyOf?_mem hfound
  exact ⟨(h.only _ hmem).mp hbelongs, hbelongs⟩

/-- A policy that is saved in its place is the only one of the space, and is read back. -/
theorem save {record : PolicyRecord}
    (hbelongs : Scope.belongs space record.source = true) (document : Policy) (time : Instant) :
    PolicyAt (Table.put docs key (Policies.savedBody space (Policies.stamped document time)
        record.source)) space key ∧
      ∃ later, Policies.stored? (Table.put docs key (Policies.savedBody space
          (Policies.stamped document time) record.source)) space = .ok (some later) ∧
        later.document = (Policies.stamped document time).reread space := by
  set body := Policies.savedBody space (Policies.stamped document time) record.source with hbody
  have hown : Scope.belongs space body = true :=
    (Policies.belongs_savedBody hbelongs _ space).mpr rfl
  have hat : PolicyAt (Table.put docs key body) space key := by
    refine ⟨h.distinct.put key body, fun entry hentry => ?_⟩
    rcases (h.distinct.mem_put key body entry).mp hentry with rfl | ⟨hin, hne⟩
    · exact iff_of_true hown rfl
    · exact h.only entry hin
  refine ⟨hat, ⟨key, space, (Policies.stamped document time).reread space, body, []⟩, ?_, rfl⟩
  have hfound : policyOf? (Table.put docs key body) space = some (key, body) := by
    -- the body that was put there is a policy of the space, and no other one is
    cases hnone : policyOf? (Table.put docs key body) space with
    | none =>
      exact absurd hown (policyOf?_eq_none_iff.mp hnone (key, body)
        ((h.distinct.mem_put key body _).mpr (.inl rfl)))
    | some entry =>
      obtain ⟨hmem, hthere⟩ := policyOf?_mem hnone
      rcases (h.distinct.mem_put key body entry).mp hmem with rfl | ⟨hin, hne⟩
      · rfl
      · exact absurd ((hat.only entry hmem).mp hthere) hne
  rw [Documents.stored?_eq, hfound, Option.elim_some, hbody, Policies.toRecord_savedBody]
  rfl

end Documents.PolicyAt

/-! ### Sessions -/

/-- How far an edit has come: not begun, between its two steps with what it has read, or ended with
an outcome. -/
inductive Session (α β : Type) where
  | begun
  | holding (read : α)
  | ended (outcome : β)

/-- Which of two sessions makes the next step. -/
inductive Turn where
  | first
  | second
  deriving DecidableEq, Repr

/-- Two sessions on one store. -/
structure Sessions where
  world : World
  first : Session PolicyRecord (Except Fault PolicyRecord) := .begun
  second : Session PolicyRecord (Except Fault PolicyRecord) := .begun

namespace Sessions

/-- The next step of an edit, if it has not ended. -/
def step (deployment : Deployment) (edit : Edit) (world : World) :
    Session PolicyRecord (Except Fault PolicyRecord) →
      Session PolicyRecord (Except Fault PolicyRecord) × World
  | .begun =>
    match edit.read.runOn deployment world with
    | (.ok record, later) => (.holding record, later)
    | (.error fault, later) => (.ended (.error fault), later)
  | .holding record =>
    let (outcome, later) := (edit.write record).runOn deployment world
    (.ended outcome, later)
  | .ended outcome => (.ended outcome, world)

/-- An edit whose two steps are made in a row ends as the edit does that is not interrupted. -/
theorem step_step (deployment : Deployment) (edit : Edit) (world : World) :
    step deployment edit (step deployment edit world .begun).2
        (step deployment edit world .begun).1 =
      (.ended (edit.work.runOn deployment world).1, (edit.work.runOn deployment world).2) := by
  rw [Edit.work_eq, Work.runOn_bind, step]
  rcases edit.read.runOn deployment world with ⟨fault | record, later⟩
  · rfl
  · rfl

/-- A turn of one of the sessions, of which each makes an edit. -/
def turn (deployment : Deployment) (first second : Edit) (sessions : Sessions) : Turn → Sessions
  | .first =>
    let (session, world) := step deployment first sessions.world sessions.first
    { sessions with world, first := session }
  | .second =>
    let (session, world) := step deployment second sessions.world sessions.second
    { sessions with world, second := session }

def run (deployment : Deployment) (first second : Edit) (sessions : Sessions)
    (turns : List Turn) : Sessions :=
  turns.foldl (turn deployment first second) sessions

end Sessions

/-! ### Sessions by what they make of the policy -/

/-- A policy but for the time of the last write and the fields that are not known. -/
def Policy.core (policy : Policy) : Policy := { policy with modified := none, extra := [] }

theorem Edit.core_apply (edit : Edit) (policy : Policy) :
    (edit.apply policy).core = edit.apply policy.core := by
  cases edit <;> rfl

/-- Two sessions as they see the policy of `draft`: the one that is stored, and the one that each of
them holds, or has saved. -/
structure Draft where
  stored : Policy
  first : Session Policy Policy := .begun
  second : Session Policy Policy := .begun

namespace Draft

/-- What the next step of an edit comes to for the session, and for the policy that is stored. -/
def step (edit : Edit) (stored : Policy) : Session Policy Policy → Session Policy Policy × Policy
  | .begun => (.holding stored, stored)
  | .holding policy => (.ended (edit.apply policy), edit.apply policy)
  | .ended policy => (.ended policy, stored)

/-- A turn of one of the sessions. -/
def turn (first second : Edit) (draft : Draft) : Turn → Draft
  | .first =>
    let (session, stored) := step first draft.stored draft.first
    { draft with stored, first := session }
  | .second =>
    let (session, stored) := step second draft.stored draft.second
    { draft with stored, second := session }

def run (first second : Edit) (draft : Draft) (turns : List Turn) : Draft :=
  turns.foldl (turn first second) draft

end Draft

/-- A world in which `draft` has one policy, with a storage id and known fields. -/
structure World.Drafts (world : World) (key : String) (policy : Policy) : Prop where
  standing : world.Standing
  placed : world.memory.policies.PolicyAt .draft key
  stored : ∃ record, Policies.stored? world.memory.policies .draft = .ok (some record) ∧
    record.document.core = policy

namespace Session

/-- A session is as far as another one tells it: what it holds is to be saved in place of the
policy, and has the known fields that are told, and so has what it has saved. -/
inductive Tracks (key : String) :
    Session PolicyRecord (Except Fault PolicyRecord) → Session Policy Policy → Prop where
  | begun : Tracks key .begun .begun
  | holding (record : PolicyRecord) (place : record.docId = key)
      (belongs : Scope.belongs .draft record.source = true) :
      Tracks key (.holding record) (.holding record.document.core)
  | ended (record : PolicyRecord) : Tracks key (.ended (.ok record)) (.ended record.document.core)

def Failed (session : Session PolicyRecord (Except Fault PolicyRecord)) : Prop :=
  ∃ fault, session = .ended (.error fault)

/-- What a session has returned, if it has ended without a fault. -/
def saved? : Session PolicyRecord (Except Fault PolicyRecord) → Option PolicyRecord
  | .ended (.ok record) => some record
  | _ => none

variable {session : Session PolicyRecord (Except Fault PolicyRecord)} {record : PolicyRecord}

theorem not_failed_of_saved? (hsaved : session.saved? = some record) : ¬session.Failed := by
  rintro ⟨fault, rfl⟩
  cases hsaved

theorem Tracks.of_saved? {key : String} {told : Session Policy Policy}
    (h : session.Tracks key told) (hsaved : session.saved? = some record) :
    told = .ended record.document.core := by
  cases h with
  | ended other =>
    cases Option.some.inj hsaved
    rfl
  | _ => cases hsaved

end Session

namespace Sessions

/-- A step of an edit that does not fail is told by what it makes of the policy. -/
theorem step_tracks (h : deployment.Standard) (edit : Edit) {key : String} {policy : Policy}
    (hworld : world.Drafts key policy)
    {session : Session PolicyRecord (Except Fault PolicyRecord)} {told : Session Policy Policy}
    (hsession : session.Tracks key told) :
    (step deployment edit world session).1.Failed ∨
      (step deployment edit world session).1.Tracks key (Draft.step edit policy told).1 ∧
        (step deployment edit world session).2.Drafts key (Draft.step edit policy told).2 := by
  obtain ⟨hstanding, hplaced, current, hcurrent, hcore⟩ := hworld
  cases hsession with
  | begun =>
    rw [step]
    rcases hrun : edit.read.runOn deployment world with ⟨fault | record, later⟩
    · exact .inl ⟨fault, rfl⟩
    · right
      obtain ⟨hstored, hafter⟩ := Edit.stored?_of_read h hstanding hrun
      obtain ⟨hkey, hbelongs⟩ := hplaced.stored?_eq_some hstored
      rw [hcurrent] at hstored
      cases Option.some.inj (Except.ok.inj hstored)
      subst hcore
      refine ⟨.holding current hkey hbelongs, hstanding.after hafter, ?_, current, ?_, rfl⟩
      · rwa [hafter.memory_eq]
      · rwa [hafter.memory_eq]
  | holding record hkey hbelongs =>
    rw [step]
    rcases hrun : (edit.write record).runOn deployment world with ⟨fault | saved, later⟩
    · exact .inl ⟨fault, rfl⟩
    · right
      obtain ⟨time, rfl, hafter⟩ := Edit.saved_of_write h hrun
      obtain ⟨hplaced', written, hwritten, hdocument⟩ :=
        hplaced.save hbelongs (edit.apply record.document) time
      have hpolicies : later.memory.policies = Table.put world.memory.policies key
          (Policies.savedBody .draft (Policies.stamped (edit.apply record.document) time)
            record.source) := by
        rw [hafter.memory, ← hkey]
        exact Memory.documents_put world.memory ".cti-policies" record.docId _
      rw [← hpolicies] at hplaced' hwritten
      -- neither the time nor the space that the document may name is among the known fields
      have hknown : written.document.core = edit.apply record.document.core := by
        rw [hdocument, ← Edit.core_apply]
        rfl
      have hended : (Policies.savedRecord .draft (edit.apply record.document) (some record) none
          time).document.core = edit.apply record.document.core := by
        rw [← Edit.core_apply]
        rfl
      rw [Draft.step, ← hended]
      exact ⟨.ended _, hstanding.after hafter, hplaced', written, hwritten,
        hknown.trans hended.symm⟩
  | ended record => exact .inr ⟨.ended record, hstanding, hplaced, current, hcurrent, hcore⟩

def Failed (sessions : Sessions) : Prop := sessions.first.Failed ∨ sessions.second.Failed

/-- Two sessions of which none has failed are told by what they make of the policy. -/
structure Tracks (sessions : Sessions) (key : String) (draft : Draft) : Prop where
  drafts : sessions.world.Drafts key draft.stored
  first : sessions.first.Tracks key draft.first
  second : sessions.second.Tracks key draft.second

variable {first second : Edit} {sessions : Sessions} {key : String} {draft : Draft}

theorem turn_failed (hfailed : sessions.Failed) (turn : Turn) :
    (sessions.turn deployment first second turn).Failed := by
  obtain ⟨world, one, other⟩ := sessions
  rcases hfailed with ⟨fault, rfl⟩ | ⟨fault, rfl⟩
  · cases turn <;> exact .inl ⟨fault, rfl⟩
  · cases turn <;> exact .inr ⟨fault, rfl⟩

theorem turn_tracks (h : deployment.Standard) (htracks : sessions.Tracks key draft) (turn : Turn) :
    (sessions.turn deployment first second turn).Failed ∨
      (sessions.turn deployment first second turn).Tracks key (draft.turn first second turn) := by
  obtain ⟨hdrafts, hfirst, hsecond⟩ := htracks
  cases turn with
  | first =>
    rcases step_tracks h first hdrafts hfirst with hfailed | ⟨hfirst', hdrafts'⟩
    · exact .inl (.inl hfailed)
    · exact .inr ⟨hdrafts', hfirst', hsecond⟩
  | second =>
    rcases step_tracks h second hdrafts hsecond with hfailed | ⟨hsecond', hdrafts'⟩
    · exact .inl (.inr hfailed)
    · exact .inr ⟨hdrafts', hfirst, hsecond'⟩

theorem run_failed (hfailed : sessions.Failed) (turns : List Turn) :
    (sessions.run deployment first second turns).Failed := by
  induction turns generalizing sessions with
  | nil => exact hfailed
  | cons turn rest ih => exact ih (turn_failed hfailed turn)

/-- Sessions of which none fails are told by what they make of the policy, whatever their turns. -/
theorem run_tracks (h : deployment.Standard) (htracks : sessions.Tracks key draft)
    (turns : List Turn) :
    (sessions.run deployment first second turns).Failed ∨
      (sessions.run deployment first second turns).Tracks key (draft.run first second turns) := by
  induction turns generalizing sessions draft with
  | nil => exact .inr htracks
  | cons turn rest ih =>
    rcases turn_tracks h htracks turn with hfailed | htracks'
    · exact .inl (run_failed hfailed rest)
    · exact ih htracks'

/-- The session that has the first turn fails if the policy is not there. -/
theorem exists_stored?_of_run (h : deployment.Standard) (hworld : world.Standing) {turn : Turn}
    {rest : List Turn}
    (hrun : ¬(Sessions.run deployment first second { world } (turn :: rest)).Failed) :
    ∃ original, Policies.stored? world.memory.policies .draft = .ok (some original) := by
  have hread : ∀ edit : Edit, (∃ record later,
      edit.read.runOn deployment world = (.ok record, later)) ∨
        (step deployment edit world .begun).1.Failed := by
    intro edit
    rw [step]
    rcases edit.read.runOn deployment world with ⟨fault | record, later⟩
    · exact .inr ⟨fault, rfl⟩
    · exact .inl ⟨record, later, rfl⟩
  have hstart : ¬(Sessions.turn deployment first second { world } turn).Failed :=
    fun hfailed => hrun (run_failed hfailed rest)
  cases turn with
  | first =>
    obtain ⟨record, later, hread⟩ := (hread first).resolve_right fun hfailed =>
      hstart (.inl hfailed)
    exact ⟨record, (Edit.stored?_of_read h hworld hread).1⟩
  | second =>
    obtain ⟨record, later, hread⟩ := (hread second).resolve_right fun hfailed =>
      hstart (.inr hfailed)
    exact ⟨record, (Edit.stored?_of_read h hworld hread).1⟩

end Sessions

/-! ### Edits that are kept -/

namespace Edit

/-- What is set by an edit, but for an order, is set in a policy: its root decoder, or the new
values of its descriptive fields, or it has none of the integrations that were dropped. -/
def KeptIn (policy : Policy) : Edit → Prop
  | .reorder _ => True
  | .assign decoder => policy.rootDecoder = Text.trim decoder
  | .update given => given.apply policy = policy
  | .drop ids => ∀ id ∈ ids, id ∉ policy.integrations

theorem keptIn_apply (edit : Edit) (policy : Policy) : edit.KeptIn (edit.apply policy) := by
  cases edit with
  | reorder wanted => trivial
  | assign decoder => rfl
  | update given =>
    obtain ⟨title, description, author, documentation, references⟩ := given
    cases title <;> cases description <;> cases author <;> cases documentation <;>
      cases references <;> rfl
  | drop ids =>
    intro id hid hmem
    simpa [hid] using (List.mem_filter.mp hmem).2

/-- An update changes nothing if the descriptive fields have its values. -/
theorem update_eq_self_iff (given : PolicyUpdate) (policy : Policy) :
    given.apply policy = policy ↔
      given.title.getD policy.title = policy.title ∧
      given.description.getD policy.description = policy.description ∧
      given.author.getD policy.author = policy.author ∧
      given.documentation.getD policy.documentation = policy.documentation ∧
      given.references.getD policy.references = policy.references := by
  cases policy
  simp [PolicyUpdate.apply]

theorem keptIn_core (edit : Edit) (policy : Policy) :
    edit.KeptIn policy.core ↔ edit.KeptIn policy := by
  cases edit with
  | update given => exact (update_eq_self_iff given _).trans (update_eq_self_iff given policy).symm
  | _ => exact Iff.rfl

theorem keptIn_reordered (edit : Edit) (wanted : List String) (policy : Policy) :
    edit.KeptIn ((Edit.reorder wanted).apply policy) ↔ edit.KeptIn policy := by
  cases edit with
  | update given => exact (update_eq_self_iff given _).trans (update_eq_self_iff given policy).symm
  | drop ids => exact forall₂_congr fun id _ => not_congr (mem_mergedOrder wanted _ id)
  | _ => exact Iff.rfl

theorem integrations_apply_subset (edit : Edit) (policy : Policy) :
    ∀ id ∈ (edit.apply policy).integrations, id ∈ policy.integrations := by
  cases edit with
  | reorder wanted => exact fun id => (mem_mergedOrder wanted _ id).mp
  | assign decoder => exact fun _ hid => hid
  | update given => exact fun _ hid => hid
  | drop ids => exact fun id hid => (List.mem_filter.mp hid).1

end Edit

/-! ### Schedules -/

namespace Turn

/-- The schedules in which two sessions have two turns each. -/
theorem interleavings {turns : List Turn}
    (h : turns.Perm [.first, .first, .second, .second]) :
    turns ∈ [[.first, .first, .second, .second], [.first, .second, .first, .second],
      [.first, .second, .second, .first], [.second, .first, .first, .second],
      [.second, .first, .second, .first], [.second, .second, .first, .first]] := by
  obtain ⟨a, b, c, d, rfl⟩ : ∃ a b c d, turns = [a, b, c, d] :=
    List.length_eq_four.mp h.length_eq
  have hcount := h.count_eq .first
  revert hcount
  cases a <;> cases b <;> cases c <;> cases d <;> decide

/-- The second session writes between the two steps of the first one. Where each of the two has two
turns, these are the schedules that end with the second step of the second session and then that of
the first one. -/
def Overtaken (turns : List Turn) : Prop := [.second, .first] <:+ turns

instance (turns : List Turn) : Decidable (Overtaken turns) :=
  inferInstanceAs (Decidable ([.second, .first] <:+ turns))

end Turn

/-- What two edits come to in the end, by the session that writes last: the first edit of the policy
that there was before both, or of what the second one made of it, or the second edit of the policy
before both, or of what the first one made of it. -/
theorem Draft.run_interleaving (first second : Edit) (policy : Policy) {turns : List Turn}
    (hturns : turns.Perm [.first, .first, .second, .second]) :
    (Turn.Overtaken turns ∧
      (run first second { stored := policy } turns).stored = first.apply policy ∧
      (run first second { stored := policy } turns).first = .ended (first.apply policy)) ∨
    (¬Turn.Overtaken turns ∧
      (run first second { stored := policy } turns).stored =
        first.apply (second.apply policy) ∧
      (run first second { stored := policy } turns).first =
        .ended (first.apply (second.apply policy))) ∨
    (¬Turn.Overtaken turns ∧
      (∃ earlier, (earlier = policy ∨ earlier = first.apply policy) ∧
        (run first second { stored := policy } turns).stored = second.apply earlier) ∧
      (run first second { stored := policy } turns).first = .ended (first.apply policy)) := by
  have hcases := Turn.interleavings hturns
  simp only [List.mem_cons, List.not_mem_nil, or_false] at hcases
  rcases hcases with rfl | rfl | rfl | rfl | rfl | rfl
  · exact .inr (.inr ⟨by decide, ⟨_, .inr rfl, rfl⟩, rfl⟩)
  · exact .inr (.inr ⟨by decide, ⟨_, .inl rfl, rfl⟩, rfl⟩)
  · exact .inl ⟨by decide, rfl, rfl⟩
  · exact .inr (.inr ⟨by decide, ⟨_, .inl rfl, rfl⟩, rfl⟩)
  · exact .inl ⟨by decide, rfl, rfl⟩
  · exact .inr (.inl ⟨by decide, rfl, rfl⟩)

/-- A reordering of the integrations of `draft` and another edit of its policy, each with its two
steps, in any order of the steps: when both have returned, what the other edit has set is kept,
unless the reordering writes what it had read before, and it was not there before. No integration
comes new with either of them. -/
theorem reorder_keeps_iff (h : deployment.Standard) (hworld : world.Standing) {key : String}
    (hone : world.memory.policies.PolicyAt .draft key) (wanted : List String) (edit : Edit)
    {turns : List Turn} (hturns : turns.Perm [.first, .first, .second, .second])
    {later : Sessions}
    (hrun : Sessions.run deployment (.reorder wanted) edit { world } turns = later)
    {reordered edited : PolicyRecord} (hfirst : later.first.saved? = some reordered)
    (hsecond : later.second.saved? = some edited) :
    ∃ original final,
      Policies.stored? world.memory.policies .draft = .ok (some original) ∧
      Policies.stored? later.world.memory.policies .draft = .ok (some final) ∧
      (∀ id ∈ reordered.document.integrations, id ∈ original.document.integrations) ∧
      (∀ id ∈ final.document.integrations, id ∈ original.document.integrations) ∧
      (edit.KeptIn final.document ↔
        ¬Turn.Overtaken turns ∨ edit.KeptIn original.document) := by
  have hsound : ¬later.Failed := by
    rintro (hfailed | hfailed)
    · exact Session.not_failed_of_saved? hfirst hfailed
    · exact Session.not_failed_of_saved? hsecond hfailed
  obtain ⟨original, horiginal⟩ : ∃ original,
      Policies.stored? world.memory.policies .draft = .ok (some original) := by
    rw [← hrun] at hsound
    cases turns with
    | nil => exact absurd hturns.length_eq (by decide)
    | cons turn rest => exact Sessions.exists_stored?_of_run h hworld hsound
  have hstart : Sessions.Tracks { world } key { stored := original.document.core } :=
    ⟨⟨hworld, hone, original, horiginal, rfl⟩, .begun, .begun⟩
  have htracks : (Sessions.run deployment (.reorder wanted) edit { world } turns).Failed ∨ _ :=
    Sessions.run_tracks h hstart turns
  rw [hrun] at htracks
  obtain ⟨⟨-, -, final, hfinal, hstored⟩, hmark, -⟩ := htracks.resolve_left hsound
  have hreordered := hmark.of_saved? hfirst
  refine ⟨original, final, horiginal, hfinal, ?_⟩
  -- all of this is about the known fields
  show (∀ id ∈ reordered.document.core.integrations, id ∈ original.document.core.integrations) ∧
    (∀ id ∈ final.document.core.integrations, id ∈ original.document.core.integrations) ∧ _
  rw [← Edit.keptIn_core edit final.document, ← Edit.keptIn_core edit original.document, hstored]
  rcases Draft.run_interleaving (.reorder wanted) edit original.document.core hturns with
    ⟨hover, hlast, hown⟩ | ⟨hnot, hlast, hown⟩ | ⟨hnot, ⟨earlier, hearlier, hlast⟩, hown⟩
  · rw [hlast, ← Session.ended.inj (hown.symm.trans hreordered), Edit.keptIn_reordered]
    exact ⟨Edit.integrations_apply_subset _ _, Edit.integrations_apply_subset _ _,
      by simp [hover]⟩
  · rw [hlast, ← Session.ended.inj (hown.symm.trans hreordered), Edit.keptIn_reordered]
    have hsubset := fun id hid => Edit.integrations_apply_subset edit original.document.core id
      (Edit.integrations_apply_subset (.reorder wanted) _ id hid)
    exact ⟨hsubset, hsubset, iff_of_true (edit.keptIn_apply _) (.inl hnot)⟩
  · rw [hlast, ← Session.ended.inj (hown.symm.trans hreordered)]
    refine ⟨Edit.integrations_apply_subset _ _, fun id hid => ?_,
      iff_of_true (edit.keptIn_apply _) (.inl hnot)⟩
    have hid := Edit.integrations_apply_subset edit earlier id hid
    rcases hearlier with rfl | rfl
    · exact hid
    · exact Edit.integrations_apply_subset _ _ id hid

/-- A store whose space `draft` has a policy with three integrations. -/
def threeIntegrations : World :=
  { memory :=
      { mappings := contentIndexes.map fun index => (index, Memory.defaultMapping)
        indexes := [(".cti-policies",
          [("p", [("space", .object [("name", .text "draft")]),
            ("document", .object [("id", .text "z"),
              ("integrations", Json.texts ["A", "B", "C"])])])])] } }

/-- A session drops an integration after a reordering has read the policy and before it writes. -/
def overtakenDrop : Sessions :=
  Sessions.run {} (.reorder ["C", "A", "B"]) (.drop ["B"]) { world := threeIntegrations }
    [.first, .second, .second, .first]

/-- The integration that was dropped is there again in the end. -/
theorem reorder_keeps_iff_overtakenDrop :
    ∃ reordered edited final, overtakenDrop.first.saved? = some reordered ∧
      overtakenDrop.second.saved? = some edited ∧
      Policies.stored? overtakenDrop.world.memory.policies .draft = .ok (some final) ∧
      "B" ∈ final.document.integrations := by
  have hstanding : threeIntegrations.Standing := by
    constructor
    · decide
    · intro index _ fields hget
      cases hget
  have hone : threeIntegrations.memory.policies.PolicyAt .draft "p" := by
    refine ⟨by decide, fun entry hentry => ?_⟩
    rw [List.mem_singleton.mp hentry]
    decide
  have hread : (Policies.stored? threeIntegrations.memory.policies .draft).toOption.bind
      (Option.map fun record => record.document.integrations) = some ["A", "B", "C"] := by
    decide +kernel
  obtain ⟨reordered, hfirst⟩ : ∃ record, overtakenDrop.first.saved? = some record :=
    Option.isSome_iff_exists.mp (by decide +kernel)
  obtain ⟨edited, hsecond⟩ : ∃ record, overtakenDrop.second.saved? = some record :=
    Option.isSome_iff_exists.mp (by decide +kernel)
  obtain ⟨original, final, horiginal, hfinal, -, -, hkept⟩ := reorder_keeps_iff
    Deployment.standard_default hstanding hone ["C", "A", "B"] (.drop ["B"]) (by decide) rfl
    hfirst hsecond
  refine ⟨reordered, edited, final, hfirst, hsecond, hfinal, ?_⟩
  rw [horiginal] at hread
  have hthere : original.document.integrations = ["A", "B", "C"] := Option.some.inj hread
  by_contra hgone
  have hdropped : (Edit.drop ["B"]).KeptIn final.document := by
    intro id hid
    rwa [List.mem_singleton.mp hid]
  rcases hkept.mp hdropped with hnot | hnone
  · exact hnot (by decide)
  · exact hnone "B" (by decide) (by rw [hthere]; decide)

end Lifecycle
