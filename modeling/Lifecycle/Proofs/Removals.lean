import Lifecycle.Proofs.Courses
import Lifecycle.Proofs.Planning

/-!
# What a promotion removes

A call of a promotion that deletes a document belongs to a stage that removes copies, and deletes
the copy of an entity whose removal is planned (`Commit.planned_of_loses`). When the ledger compares
contents, it asks to remove just what the space does not have. So of what the space has a promotion
deletes a copy only where the ledger says nothing, since both spaces have the same content, and the
removal was submitted (`promote_removes`); and there it does, however the change came to be
submitted.
-/

namespace Lifecycle

variable {deployment : Deployment} {world : World} {memory : Memory} {space target : Space}

/-! ### Deleted copies -/

namespace Memory

/-- Whether one of some calls deletes a copy of an entity in a space, from the contents that the
calls before it have left. -/
def Loses (memory : Memory) (calls : List Call) (type : EntityType) (space : Space)
    (id : String) : Prop :=
  ∃ earlier entry rest,
    calls = earlier ++ .delete (({} : ContentSettings).indexFor type) entry.1 :: rest ∧
      entry ∈ (memory.replay earlier).entities type ∧ Content.isCopy space id entry.2 = true

theorem distinct_replay {index : String} (h : Table.Distinct (memory.documents index))
    (calls : List Call) : Table.Distinct ((memory.replay calls).documents index) := by
  induction calls generalizing memory with
  | nil => exact h
  | cons call rest ih =>
    apply ih
    by_cases hindex : call.index = index
    · subst hindex
      cases call with
      | upsert index id body =>
        have hput : (memory.apply (.upsert index id body)).documents index =
            Table.put (memory.documents index) id body := documents_put memory index id body
        exact hput ▸ Table.Distinct.put h id body
      | delete index id =>
        have hremove : (memory.apply (.delete index id)).documents index =
            Table.remove (memory.documents index) id := documents_delete memory index id
        exact hremove ▸ Table.Distinct.remove h id
      | search _ _ => exact h
      | byIds _ _ => exact h
      | fieldCapabilities _ _ => exact h
    · rwa [documents_apply_of_ne hindex]

/-- What is there after some deletions was there before. -/
theorem mem_of_mem_replay_deletions {calls : List Call} {index : String} {entry : Query.Entry}
    (hdeletions : ∀ call ∈ calls, call.method = .delete)
    (hmem : entry ∈ (memory.replay calls).documents index) : entry ∈ memory.documents index := by
  induction calls generalizing memory with
  | nil => exact hmem
  | cons call rest ih =>
    have hmem := ih (fun other hother => hdeletions other (List.mem_cons_of_mem _ hother)) hmem
    by_cases hindex : call.index = index
    · subst hindex
      have hdeletes := hdeletions call List.mem_cons_self
      cases call with
      | delete index key =>
        have hremove : (memory.apply (.delete index key)).documents index =
            Table.remove (memory.documents index) key := documents_delete memory index key
        rw [Call.index, hremove] at hmem
        exact ((Table.mem_remove _ key entry).mp hmem).1
      | _ => cases hdeletes
    · rwa [documents_apply_of_ne hindex] at hmem

end Memory

theorem Content.shownId?_eq {body : Table Json} (h : idOf body ≠ "") :
    shownId? body = some (idOf body) := by
  rw [shownId?, entityId?_eq h]
  rfl

namespace Commit

variable {plan : EntityType → List Change}

/-- What a stage deletes is a copy that it found of an entity whose removal is planned. -/
theorem exists_copy?_of_deletion {type : EntityType} {time : Instant} {calls : List Call}
    (h : (Stage.remove type).calls plan space target time memory = .ok calls) {index key : String}
    (hcall : .delete index key ∈ calls) :
    ∃ id ∈ removalIds plan type, ∃ entry,
      memory.copy? type (removalIds plan type) target id = some entry ∧ entry.1 = key := by
  cases h
  obtain ⟨id, hid, hcall⟩ := List.mem_filterMap.mp hcall
  rw [Option.map_map] at hcall
  obtain ⟨entry, hentry, hdelete⟩ := Option.map_eq_some_iff.mp hcall
  exact ⟨id, hid, entry, hentry, (Call.delete.inj hdelete).2⟩

/-- Each copy that a commit deletes, or tries to, is one whose removal is planned. -/
theorem planned_of_loses (hdistinct : ∀ type, Table.Distinct (memory.entities type))
    {time : Instant} {stages : List Stage} {issued : List Call}
    (h : issued <+: schedule (Stage.calls plan space target time) stages memory)
    {type : EntityType} {id : String} (hid : id ≠ "")
    (hloses : memory.Loses issued type target id) :
    ⟨id, .remove⟩ ∈ plan type := by
  obtain ⟨earlier, entry, rest, rfl, hentry, hcopy⟩ := hloses
  obtain ⟨past, hschedule⟩ := h
  rw [List.append_assoc, List.cons_append] at hschedule
  obtain ⟨before, stage, within, more, hcalls, -, rfl⟩ := exists_stage_of_schedule hschedule.symm
  have hmem : Call.delete (({} : ContentSettings).indexFor type) entry.1 ∈
      within ++ .delete (({} : ContentSettings).indexFor type) entry.1 :: more := by simp
  obtain ⟨hmethod, hindex⟩ := method_of_mem_calls hcalls hmem
  cases stage with
  | write other => cases hmethod
  | policy => cases hmethod
  | remove other =>
    obtain rfl := indexFor_injective hindex
    obtain ⟨name, hname, found, hfound, hkey⟩ := exists_copy?_of_deletion hcalls hmem
    -- the stage has deleted only, so that the document was there when the stage looked for copies
    rw [Memory.replay_append] at hentry
    have hthere := Memory.mem_of_mem_replay_deletions (fun call hcall =>
      (method_of_mem_calls hcalls (List.mem_append_left _ hcall)).1) hentry
    obtain ⟨hin, -, hshown⟩ := Memory.copy?_mem hfound
    have hsame : found = entry :=
      List.inj_on_of_nodup_map (Memory.distinct_replay (hdistinct type) _) hin hthere hkey
    obtain ⟨-, hidOf⟩ := (Content.isCopy_iff _ _ _).mp hcopy
    rw [hsame, Content.shownId?_eq (hidOf ▸ hid), hidOf] at hshown
    rw [Option.some.inj hshown]
    exact (Change.mem_ids_removals _ _).mp hname

end Commit

/-! ### Promotions -/

/-- Of what its space has, a promotion by comparing contents deletes a copy only where the removal
was submitted and both spaces have the same content, and there it does. -/
theorem promote_removes (h : deployment.Standard)
    (hledger : deployment.settings.changeLedger = .contentHash)
    (hfixed : deployment.fixedChanges = none) (hworld : world.Standing)
    (horderly : ∀ type, (world.memory.entities type).Orderly)
    (htags : ∀ type, ∀ entry ∈ world.memory.entities type,
      Change.stripTag (Content.idOf entry.2) = Content.idOf entry.2)
    (htarget : space.target? = some target) (submitted : ChangeSet) :
    ∃ outcome later done, ∃ failed : Option Call,
      (Commit.promote space submitted).runOn deployment world = (outcome, later) ∧
      later.memory = world.memory.replay done ∧
      later.written = world.written ++ done ++ failed.toList ∧
      (∀ type id, (world.memory.entities type).Has space id →
        world.memory.Loses (done ++ failed.toList) type target id →
          ⟨id, .remove⟩ ∈ Change.normalised (submitted.of type) ∧
            Ledger.contentOf? (world.memory.entities type) space id =
              Ledger.contentOf? (world.memory.entities type) target id) ∧
      ∀ report, outcome = .ok report → ∀ type id, (world.memory.entities type).Has space id →
        ⟨id, .remove⟩ ∈ Change.normalised (submitted.of type) →
        Ledger.contentOf? (world.memory.entities type) space id =
          Ledger.contentOf? (world.memory.entities type) target id →
        ¬(later.memory.entities type).Has target id := by
  obtain ⟨outcome, later, done, failed, hrun, hafter, hcourse⟩ :=
    Commit.promote_course h hworld.probed htarget submitted
  refine ⟨outcome, later, done, failed, hrun, hafter.memory, hafter.written, ?_, ?_⟩
  · intro type id hhas hloses
    -- a promotion that ends at the gate or the ledger makes no calls
    have hnone : done = [] ∧ failed = none →
        ¬world.memory.Loses (done ++ failed.toList) type target id := by
      rintro ⟨rfl, rfl⟩ ⟨earlier, entry, rest, hcalls, -⟩
      simp at hcalls
    obtain ⟨-, -, -, -, hdone, hfailed⟩ | ⟨gated, hgate, hcourse⟩ := hcourse
    · exact absurd hloses (hnone ⟨hdone, hfailed⟩)
    obtain ⟨-, -, -, -, hdone, hfailed⟩ | ⟨fresh, read, time, hfresh, hcourse⟩ := hcourse
    · exact absurd hloses (hnone ⟨hdone, hfailed⟩)
    obtain ⟨-, -, hplan, -⟩ :=
      Commit.after_ledger h hworld hledger hfixed horderly htags htarget submitted hgate hfresh
    rw [hplan] at hcourse
    have hid := (horderly type).ne_empty_of_has hhas
    exact (Ledger.removal_of_has (horderly type) hhas).mp
      (Commit.planned_of_loses (fun type => (horderly type).distinct) hcourse.issued hid hloses)
  · rintro report rfl type id hhas hremoval hagree
    obtain ⟨source, current, time, hready, hafter⟩ :=
      Commit.after_promote h hworld hledger hfixed horderly htags htarget hrun
    have hplanned : id ∈ Ledger.plannedRemovals (world.memory.entities type) space target
        (submitted.of type) :=
      (Change.mem_ids_removals _ _).mpr
        ((Ledger.removal_of_has (horderly type) hhas).mpr ⟨hremoval, hagree⟩)
    rw [hafter.memory, (Commit.replay_plannedScript horderly hready time).1, Documents.Has,
      (Ledger.promotedIn_changed (horderly type) (hready.sources type)).2.2 id hplanned]
    exact Bool.false_ne_true

def decoderBody (space : Space) (name : String) : Table Json :=
  [("space", .object [("name", .text space.name)]),
   ("document", .object [("id", .text "x"), ("name", .text name)])]

/-- A store with a decoder in `test`, and its copy in `custom`, which may have another name. -/
def copiedDecoder (name : String) : World :=
  { memory :=
      { mappings := contentIndexes.map fun index => (index, Memory.defaultMapping)
        indexes := [(".cti-decoders",
          [("test-x", decoderBody .test "new"), ("custom:x", decoderBody .custom name)])] } }

theorem copiedDecoder_standing (name : String) : (copiedDecoder name).Standing := by
  constructor
  · show Memory.Mapped
      { mappings := contentIndexes.map fun index => (index, Memory.defaultMapping) }
    decide
  · intro index _ fields hget
    cases hget

theorem copiedDecoder_orderly (name : String) (type : EntityType) :
    ((copiedDecoder name).memory.entities type).Orderly := by
  cases type with
  | decoders =>
    have htest : Documents.Orderly [("test-x", decoderBody .test "new")] :=
      Content.orderly_singleton .test (by decide) rfl rfl (by decide)
    have hone : ∀ other, Scope.belongs other (decoderBody .custom name) = true → other = .custom :=
      fun other => (Content.belongs_iff_of_name rfl rfl).mp
    have hcopy : Content.isCopy .custom "x" (decoderBody .custom name) = true :=
      (Content.isCopy_iff _ _ _).mpr ⟨(Content.belongs_iff_of_name rfl rfl).mpr rfl, rfl⟩
    exact htest.put_copy (by decide) hcopy hone
  | _ => exact Content.orderly_nil

theorem copiedDecoder_untagged (name : String) (type : EntityType) :
    ∀ entry ∈ (copiedDecoder name).memory.entities type,
      Change.stripTag (Content.idOf entry.2) = Content.idOf entry.2 := by
  have hid : ∀ space name, Content.idOf (decoderBody space name) = "x" := fun _ _ => rfl
  cases type with
  | decoders =>
    intro entry hentry
    have hentry : entry ∈ [("test-x", decoderBody .test "new"),
      ("custom:x", decoderBody .custom name)] := hentry
    rcases List.mem_pair.mp hentry with rfl | rfl <;> rw [hid] <;> decide
  | _ => exact nofun

/-- A request to remove the decoder from `custom`. -/
def decoderRemoval : ChangeSet := { decoders := [⟨"x", .remove⟩] }

/-- The contents are ready for the request, whatever the copy in `custom` is. -/
theorem copiedDecoder_ready (name : String) :
    Commit.Ready (copiedDecoder name).memory .test .custom decoderRemoval none none := by
  constructor
  · rfl
  · exact ⟨[], rfl⟩
  · intro type id hid
    obtain ⟨operation, hplanned, -⟩ := (Change.mem_ids_writes _ id).mp hid
    obtain ⟨given, hgiven, -⟩ :=
      (Ledger.mem_planIn (copiedDecoder_orderly name type) _ id operation).mp hplanned
    cases type with
    | decoders =>
      have hgiven : ⟨id, given⟩ ∈ [(⟨"x", .remove⟩ : Change)] := hgiven
      cases List.mem_singleton.mp hgiven
      rfl
    | _ => cases hgiven
  · rfl
  · exact nofun

theorem exists_promoted_copiedDecoder (name : String) :
    ∃ report later, (Commit.promote .test decoderRemoval).runOn {} (copiedDecoder name) =
      (.ok report, later) := by
  obtain ⟨time, hperforms⟩ := (copiedDecoder_ready name).performs Deployment.standard_default
    (copiedDecoder_standing name) rfl rfl (copiedDecoder_orderly name)
    (copiedDecoder_untagged name) (by decide)
  obtain ⟨later, hrun, -⟩ := hperforms.run_eq rfl
  exact ⟨_, later, hrun⟩

/-- The decoder is removed from `custom` on request, though `test` has it. -/
theorem promote_removes_copiedDecoder :
    ((copiedDecoder "new").memory.entities .decoders).Has .test "x" ∧
      ∃ report later,
        (Commit.promote .test decoderRemoval).runOn {} (copiedDecoder "new") =
          (.ok report, later) ∧ ¬(later.memory.entities .decoders).Has .custom "x" := by
  have hhas : ((copiedDecoder "new").memory.entities .decoders).Has .test "x" := rfl
  obtain ⟨report, promoted, hpromoted⟩ := exists_promoted_copiedDecoder "new"
  obtain ⟨outcome, later, done, failed, hrun, -, -, -, hgone⟩ :=
    promote_removes Deployment.standard_default rfl rfl (copiedDecoder_standing "new")
      (copiedDecoder_orderly "new") (copiedDecoder_untagged "new")
      (by decide : Space.test.target? = some .custom) decoderRemoval
  obtain ⟨rfl, rfl⟩ := Prod.mk.inj (hrun.symm.trans hpromoted)
  exact ⟨hhas, report, later, hrun, hgone report rfl .decoders "x" hhas (by decide) rfl⟩

end Lifecycle
