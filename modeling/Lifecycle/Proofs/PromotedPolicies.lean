import Lifecycle.Proofs.Canonical
import Lifecycle.Proofs.Labels
import Lifecycle.Proofs.PolicyContent
import Lifecycle.Proofs.Progress

/-!
# Promoted policies are found again

The policy that a promotion saves has its labels from two bodies: the one at the top stays from the
body that it is saved over, the one in the document is that of its source (`Commit.promotedShape`).
Each of the two bodies is found by one of its labels, but it may be the other one that is dropped.
So the policy is found in the successor, with the content of its source, if and only if one of the
labels that are left can be read or, where none is left, the one that is made
(`Commit.promoted_policy_found`). This is so where the successor had no policy.

Nothing else of a promotion is about the policies: the stages that write and remove copies leave
them (`Commit.Follows.leaves_policies`), so that what is read of them before the commit, and behind
it, is what its stage for the policy reads and leaves.
-/

namespace Lifecycle

variable {deployment : Deployment} {world : World} {space target : Space}

/-! ### Labels of saved policies -/

namespace Content

variable {body : Table Json}

theorem label?_top_put_document (body : Table Json) (document : Json) :
    label? (body.put "document" document) .top = label? body .top := by
  rw [label?_top, label?_top, Table.get?_put, if_neg (by decide)]

theorem label?_within_put_document (body : Table Json) (document : Json) :
    label? (body.put "document" document) .within = document.get? "space" := by
  rw [label?_within, Table.get?_put, if_pos rfl, Option.bind_some]

theorem label?_put_hash (body : Table Json) (value : Json) (place : Place) :
    label? (body.put "hash" value) place = label? body place := by
  cases place with
  | top => rw [label?_top, label?_top, Table.get?_put, if_neg (by decide)]
  | within => rw [label?_within, label?_within, Table.get?_put, if_neg (by decide)]

/-- The document that a body is read for has the label that the body has in its document. -/
theorem get?_space_documentValue (body : Table Json) :
    (documentValue body).get? "space" = label? body .within := by
  rw [label?_within, documentValue, Json.under]
  cases Table.get? body "document" with
  | none => rfl
  | some value =>
    rw [Option.getD_some, Option.bind_some, Json.given?]
    cases htruthy : value.truthy with
    | true => rfl
    | false =>
      -- what does not count as given has no label either
      cases value with
      | object fields =>
        have hempty : fields = [] := by simpa [Json.truthy] using htruthy
        rw [hempty]
        rfl
      | _ => rfl

end Content

namespace Policies

open Content (label? Keyworded Findable)

/-- A saved policy names its space, if its labels can be read: the one at the top of the body that
it is saved over, and the one of its document. -/
theorem namedIn_savedBody_iff {mapping : Mapping} {fields : List String} {name : String}
    (hmapping : Keyworded mapping)
    (hfields : ∀ field ∈ fields, field ∈ ({} : ContentSettings).spaceFieldCandidates)
    {document : Policy} {source : Table Json}
    (hspace : document.fields.get? "space" = label? source .within) (base : Table Json) :
    Scope.namedIn mapping fields name (savedBody target document base) = true ↔
      Findable mapping fields (base.put "document" (Content.documentValue source)) ∧
        name = target.name := by
  have hlabels : ∀ place, label? (base.put "document" document.toJson) place =
      label? (base.put "document" (Content.documentValue source)) place := by
    intro place
    cases place with
    | top => rw [Content.label?_top_put_document, Content.label?_top_put_document]
    | within =>
      rw [Content.label?_within_put_document, Content.label?_within_put_document,
        Content.get?_space_documentValue, ← hspace]
      rfl
  rw [savedBody, Content.namedIn_congr hmapping hfields (Content.label?_put_hash _ _),
    Content.namedIn_relabelled_iff hmapping hfields, Content.findable_congr hlabels]

/-- What is read from a document: its storage id, its body, and the policy in it. -/
theorem of_readFrom {entry : Option Query.Entry} {found : Option PolicyRecord}
    (h : readFrom space entry = .ok found) :
    found.map (fun record => (record.docId, record.source)) = entry ∧
      ∀ record ∈ found,
        Policy.check (Content.documentValue record.source) = .good record.document := by
  cases entry with
  | none =>
    cases h
    exact ⟨rfl, nofun⟩
  | some entry =>
    rw [readFrom] at h
    cases hrecord : toRecord space ⟨entry.1, entry.2⟩ with
    | error fault =>
      rw [hrecord] at h
      cases h
    | ok record =>
      rw [hrecord] at h
      cases h
      obtain ⟨document, hdocument, rfl⟩ := toRecord_eq_ok_iff.mp hrecord
      refine ⟨rfl, fun other hother => ?_⟩
      cases hother
      exact hdocument

/-- Calls about other indexes leave the policies. -/
theorem found?_replay_of_ne {memory : Memory} {calls : List Call}
    (h : ∀ call ∈ calls, call.index ≠ ".cti-policies") (space : Space) :
    found? (memory.replay calls) space = found? memory space := by
  simp only [found?, Memory.policies, Memory.documents_replay_of_ne h, Memory.carries,
    Memory.mapping_replay_of_ne h]

end Policies

/-! ### What a promotion does about policies -/

namespace Memory

/-- Writes leave the mappings of the indexes that have one. -/
theorem get?_mappings_replay {memory : Memory} {index : String} {mapping : Mapping}
    (h : memory.mappings.get? index = some mapping) (calls : List Call) :
    (memory.replay calls).mappings.get? index = some mapping := by
  induction calls generalizing memory with
  | nil => exact h
  | cons call rest ih => exact ih (get?_mappings_apply h call)

/-- The documents of the policies index that name a space. -/
def policiesIn (memory : Memory) (space : Space) : List Query.Entry :=
  memory.policies.filter fun entry => memory.carries ".cti-policies" space entry.2

theorem mem_policiesIn {memory : Memory} {entry : Query.Entry} :
    entry ∈ memory.policiesIn space ↔
      entry ∈ memory.policies ∧ memory.carries ".cti-policies" space entry.2 = true :=
  List.mem_filter

end Memory

namespace Commit

open Policies

variable {plan : EntityType → List Change} {time : Instant}

/-- Work whose stages are about other indexes leaves the policies, if it has a value. -/
theorem Follows.leaves_policies {α : Type} {work : Work α} {stages : List Stage}
    (h : Follows (Stage.calls plan space target time) work deployment world stages)
    (hstages : ∀ stage ∈ stages, stage.index ≠ ".cti-policies") {value : α} {later : World}
    (hrun : work.runOn deployment world = (.ok value, later)) :
    ∃ calls, world.After calls none later ∧ ∀ call ∈ calls, call.index ≠ ".cti-policies" := by
  obtain ⟨outcome, other, calls, failed, hother, hafter, hcourse⟩ := h
  rw [hrun] at hother
  obtain ⟨rfl, rfl⟩ := Prod.mk.inj hother
  obtain ⟨-, hcalls, rfl⟩ := hcourse.finish
  refine ⟨calls, hafter, fun call hcall => ?_⟩
  rw [hcalls] at hcall
  obtain ⟨stage, hstage, found, asked, hasked, hmem⟩ := exists_of_mem_schedule hcall
  rw [(method_of_mem_calls hasked hmem).2]
  exact hstages stage hstage

/-- A pass over types is about their indexes. -/
theorem index_ne_of_mem_map {stage : Stage} {types : List EntityType} {of : EntityType → Stage}
    (hindex : ∀ type, (of type).index = ({} : ContentSettings).indexFor type)
    (h : stage ∈ types.map of) : stage.index ≠ ".cti-policies" := by
  obtain ⟨type, -, rfl⟩ := List.mem_map.mp h
  rw [hindex]
  exact indexFor_ne_policies type

/-- A commit that is completed, and that is to promote the policy, has found it in its space, and
reports whether it has saved it in the successor; its other calls leave the policies. -/
theorem policies_of_execute (h : deployment.Standard) (hworld : world.Probed) {report : Report}
    {later : World}
    (hrun : (execute plan true space target).runOn deployment world = (.ok report, later)) :
    ∃ source current time calls, found? world.memory space = .ok (some source) ∧
      found? world.memory target = .ok current ∧
      report.policyUpdated = !samePolicy source current ∧ world.After calls none later ∧
      later.memory.policies =
        promotedPolicies world.memory.policies target source current time := by
  rw [execute_eq] at hrun
  obtain ⟨applied, written, hwrites, hrun⟩ := Work.runOn_bind_ok hrun
  obtain ⟨updated, promoted, hpolicy, hrun⟩ := Work.runOn_bind_ok hrun
  obtain ⟨counts, removed, hremovals, hrun⟩ := Work.runOn_bind_ok hrun
  obtain ⟨hreport, rfl⟩ := Prod.mk.inj hrun
  obtain ⟨copies, hwritten, hcopies⟩ :=
    (follows_writeAll plan space target h hworld 0 _ _).leaves_policies
      (fun stage => index_ne_of_mem_map fun _ => rfl) hwrites
  obtain ⟨source, current, time, hsource, hcurrent, hupdated, hpromoted⟩ :=
    after_promotePolicy_found h (hwritten.probed hworld) (runOn_of_step hpolicy)
  rw [hwritten.memory, found?_replay_of_ne hcopies] at hsource hcurrent
  obtain ⟨removals, hremoved, hothers⟩ :=
    (follows_removeAll plan space target h (hpromoted.probed (hwritten.probed hworld)) 0 _
      _).leaves_policies (fun stage => index_ne_of_mem_map fun _ => rfl) hremovals
  refine ⟨source, current, time, _, hsource, hcurrent, ?_,
    hwritten.trans (hpromoted.trans hremoved), ?_⟩
  · rw [← hupdated, ← Except.ok.inj hreport]
  · have hleft : ∀ (memory : Memory) (calls : List Call),
        (∀ call ∈ calls, call.index ≠ ".cti-policies") →
          (memory.replay calls).policies = memory.policies :=
      fun memory calls hcalls => Memory.documents_replay_of_ne hcalls
    rw [hremoved.memory, hleft _ _ hothers, hpromoted.memory, policies_replay_policyCalls,
      hwritten.memory, hleft _ _ hcopies]

/-- What holds of a commit that is to promote the policy holds of a promotion that is. -/
theorem policies_of_promote (h : deployment.Standard) (hworld : world.Probed)
    (htarget : space.target? = some target) {submitted : ChangeSet} {report : Report}
    {later : World}
    (hrun : (promote space submitted).runOn deployment world = (.ok report, later))
    (hpolicy : submitted.hasPolicyUpdate = true) :
    ∃ source current time calls, found? world.memory space = .ok (some source) ∧
      found? world.memory target = .ok current ∧
      report.policyUpdated = !samePolicy source current ∧ world.After calls none later ∧
      later.memory.policies =
        promotedPolicies world.memory.policies target source current time := by
  have hsuccessor : (Work.ofExcept (Preview.successor space)).runOn deployment world =
      (.ok target, world) := by
    rw [Work.runOn_ofExcept, Preview.successor, htarget]
  rw [promote, Work.runOn_bind, hsuccessor] at hrun
  obtain ⟨⟨⟩, gated, hgate, hrun⟩ := Work.runOn_bind_ok hrun
  obtain ⟨fresh, read, hledger, hrun⟩ := Work.runOn_bind_ok hrun
  have hgated := Gate.reads_ensure h space world
  rw [hgate] at hgated
  have hread := Preview.reads_changesOf h space gated
  rw [hledger] at hread
  have hbefore := hgated.trans hread
  rw [hpolicy] at hrun
  obtain ⟨source, current, time, calls, hfound⟩ :=
    policies_of_execute h (hbefore.probed hworld) hrun
  rw [hbefore.memory_eq] at hfound
  obtain ⟨hsource, hcurrent, hupdated, hafter, hpolicies⟩ := hfound
  exact ⟨source, current, time, calls, hsource, hcurrent, hupdated, hbefore.trans hafter,
    hpolicies⟩

/-- A promotion that reports a policy as updated was asked to. -/
theorem hasPolicyUpdate_of_promote {submitted : ChangeSet} {report : Report} {later : World}
    (hrun : (promote space submitted).runOn deployment world = (.ok report, later))
    (hupdated : report.policyUpdated = true) : submitted.hasPolicyUpdate = true := by
  rw [promote] at hrun
  obtain ⟨target, _, _, hrun⟩ := Work.runOn_bind_ok hrun
  obtain ⟨_, _, _, hrun⟩ := Work.runOn_bind_ok hrun
  obtain ⟨fresh, _, _, hrun⟩ := Work.runOn_bind_ok hrun
  cases hpolicy : submitted.hasPolicyUpdate with
  | true => rfl
  | false =>
    rw [hpolicy, execute_eq] at hrun
    obtain ⟨applied, _, _, hrun⟩ := Work.runOn_bind_ok hrun
    obtain ⟨updated, _, hnone, hrun⟩ := Work.runOn_bind_ok hrun
    obtain ⟨counts, _, _, hrun⟩ := Work.runOn_bind_ok hrun
    have hreport := Except.ok.inj (Prod.mk.inj hrun).1
    rw [← hreport, ← Except.ok.inj (Prod.mk.inj hnone).1] at hupdated
    exact hupdated

/-! ### Finding the policy again -/

/-- The body that a policy is promoted over, that of its source if there is none in the successor,
with the document of its source. -/
def promotedShape (source : Table Json) (current : Option (Table Json)) : Table Json :=
  Table.put (current.getD source) "document" (Content.documentValue source)

/-- A body with its own document has the labels that it has. -/
theorem label?_promotedShape_none (source : Table Json) (place : Content.Place) :
    Content.label? (promotedShape source none) place = Content.label? source place := by
  rw [promotedShape, Option.getD_none]
  cases place with
  | top => exact Content.label?_top_put_document source _
  | within => rw [Content.label?_within_put_document, Content.get?_space_documentValue]

/-- Where a policy is promoted to, and the body that it is saved over, by the documents that are
read of its space and of the successor. -/
theorem placeOf_eq (target : Space) (source : PolicyRecord) {current : Option PolicyRecord}
    {entry : Option Query.Entry}
    (hcurrent : current.map (fun record => (record.docId, record.source)) = entry)
    (document : Policy) :
    (∀ found, entry = some found → found.1 = (placeOf target document current (some source)).1) ∧
      (placeOf target document current (some source)).2.put "document"
          (Content.documentValue source.source) =
        promotedShape source.source (entry.map Prod.snd) := by
  subst hcurrent
  cases current with
  | none => exact ⟨nofun, rfl⟩
  | some record => exact ⟨fun found hfound => by rw [← Option.some.inj hfound]; rfl, rfl⟩

/-- An index where a document names a space has a mapping. -/
theorem mapping_of_carries {memory : Memory} {index : String} {body : Table Json}
    (h : memory.carries index space body = true) :
    memory.mappings.get? index = some (memory.mapping index) := by
  rw [Memory.carries, Scope.carries_eq_namedIn, Scope.namedIn] at h
  obtain ⟨field, -, hfield⟩ := List.any_eq_true.mp h
  rw [Memory.mapping] at hfield ⊢
  cases hmapping : memory.mappings.get? index with
  | none =>
    rw [hmapping] at hfield
    cases hfield
  | some mapping => rfl

/-- Behind the save of a policy in a space that no document under another storage id names, the
policy of the space is the one that was saved, if its labels can be read, and else there is none. -/
theorem found?_of_saved {memory later : Memory} {key : String} {document : Policy}
    {source base : Table Json}
    (hmapping : Content.Keyworded (memory.mapping ".cti-policies"))
    (hkept : later.mapping ".cti-policies" = memory.mapping ".cti-policies")
    (hdistinct : Table.Distinct memory.policies)
    (hother : ∀ entry ∈ memory.policies,
      memory.carries ".cti-policies" target entry.2 = true → entry.1 = key)
    (hsaved : later.policies = Table.put memory.policies key (savedBody target document base))
    (hspace : document.fields.get? "space" = Content.label? source .within) :
    (Content.Findable (memory.mapping ".cti-policies") ({} : ContentSettings).spaceFieldCandidates
        (base.put "document" (Content.documentValue source)) →
      found? later target = .ok (some
        { docId := key, space := target, document := document.reread target
          source := savedBody target document base })) ∧
    (¬Content.Findable (memory.mapping ".cti-policies")
        ({} : ContentSettings).spaceFieldCandidates
        (base.put "document" (Content.documentValue source)) →
      found? later target = .ok none) := by
  have hcarries : memory.carries ".cti-policies" target (savedBody target document base) = true ↔
      Content.Findable (memory.mapping ".cti-policies")
        ({} : ContentSettings).spaceFieldCandidates
        (base.put "document" (Content.documentValue source)) := by
    rw [Memory.carries, Scope.carries_eq_namedIn,
      namedIn_savedBody_iff hmapping (fun _ => id) hspace base]
    exact and_iff_left rfl
  have hsame : ∀ body, later.carries ".cti-policies" target body =
      memory.carries ".cti-policies" target body := fun body => by
    rw [Memory.carries, Memory.carries, hkept]
  have hfound : found? later target = readFrom target
      (if memory.carries ".cti-policies" target (savedBody target document base) = true then
        some (key, savedBody target document base) else none) := by
    simp only [found?, hsaved, hsame]
    exact congrArg (readFrom target) (hdistinct.find?_put _ hother)
  constructor
  · intro hfindable
    rw [hfound, if_pos (hcarries.mpr hfindable), readFrom, toRecord_savedBody]
    rfl
  · intro hlost
    rw [hfound, if_neg (mt hcarries.mp hlost)]
    rfl

/-- The policy of a space is read from the first of its documents. -/
theorem found?_of_head (memory : Memory) (space : Space) :
    found? memory space = readFrom space (memory.policiesIn space).head? := by
  rw [found?, Memory.policiesIn, List.head?_filter]

/-- Behind the promotion of a policy to a space with one policy at most, the policy of the space is
the one that was promoted, if a label that it is saved with can be read, and else there is none. -/
theorem found?_of_promoted {memory later : Memory} {source : PolicyRecord}
    {current : Option PolicyRecord} {entry : Option Query.Entry} {time : Instant}
    (hmapping : Content.Keyworded (memory.mapping ".cti-policies"))
    (hkept : later.mapping ".cti-policies" = memory.mapping ".cti-policies")
    (hdistinct : Table.Distinct memory.policies)
    (hsource : Policy.check (Content.documentValue source.source) = .good source.document)
    (hentry : memory.policiesIn target = entry.toList)
    (hcurrent : current.map (fun record => (record.docId, record.source)) = entry)
    (hdiffers : samePolicy source current = false)
    (hsaved : later.policies = promotedPolicies memory.policies target source current time) :
    (Content.Findable (memory.mapping ".cti-policies") ({} : ContentSettings).spaceFieldCandidates
        (promotedShape source.source (entry.map Prod.snd)) →
      ∃ record, found? later target = .ok (some record) ∧
        record.document.contentHash = source.document.contentHash) ∧
    (¬Content.Findable (memory.mapping ".cti-policies")
        ({} : ContentSettings).spaceFieldCandidates
        (promotedShape source.source (entry.map Prod.snd)) →
      found? later target = .ok none) := by
  rw [promotedPolicies, hdiffers, if_neg Bool.false_ne_true] at hsaved
  obtain ⟨hplace, hshape⟩ :=
    placeOf_eq target source hcurrent (promotedDocument source.document current)
  have hother : ∀ found ∈ memory.policies,
      memory.carries ".cti-policies" target found.2 = true → found.1 =
        (placeOf target (promotedDocument source.document current) current (some source)).1 := by
    intro found hfound hnamed
    have hmem := Memory.mem_policiesIn.mpr ⟨hfound, hnamed⟩
    rw [hentry, Option.mem_toList] at hmem
    exact hplace found hmem
  have hspace : (stamped (promotedDocument source.document current) time).fields.get? "space" =
      Content.label? source.source .within := by
    obtain ⟨id, hpromoted⟩ := stamped_promotedDocument source.document current time
    rw [hpromoted, ← Content.get?_space_documentValue, ← Policy.get?_space_fields hsource]
    rfl
  obtain ⟨hfindable, hlost⟩ :=
    found?_of_saved hmapping hkept hdistinct hother hsaved hspace
  rw [hshape] at hfindable hlost
  refine ⟨fun hshown => ⟨_, hfindable hshown, ?_⟩, hlost⟩
  exact contentHash_promoted source (Policy.extra_of_check hsource) current time target

/-- The policy that a promotion reports as updated is found in the successor, with the content of
its source, if and only if one of the labels that it is saved with can be read; so it is where the
successor had no policy. The two policies may name their spaces in any way that the mapping of their
index finds. -/
theorem promoted_policy_found (h : deployment.Standard) (hworld : world.Probed)
    (hmapping : Content.Keyworded (world.memory.mapping ".cti-policies"))
    (hdistinct : Table.Distinct world.memory.policies) {source : Query.Entry}
    {current : Option Query.Entry}
    (hsource : world.memory.policiesIn space = [source])
    (hcurrent : world.memory.policiesIn target = current.toList)
    (htarget : space.target? = some target) {submitted : ChangeSet} {report : Report}
    {later : World}
    (hrun : (promote space submitted).runOn deployment world = (.ok report, later))
    (hupdated : report.policyUpdated = true) :
    ∃ policy found, Policy.check (Content.documentValue source.2) = .good policy ∧
      (get? target).Yields deployment later (.ok found) ∧
      (∀ record ∈ found, record.document.contentHash = policy.contentHash) ∧
      (found.isSome = true ↔ Content.Findable (world.memory.mapping ".cti-policies")
        ({} : ContentSettings).spaceFieldCandidates
        (promotedShape source.2 (current.map Prod.snd))) ∧
      (current = none → found.isSome = true) := by
  obtain ⟨first, second, time, calls, hfirst, hsecond, hdiffers, hafter, hpolicies⟩ :=
    policies_of_promote h hworld htarget hrun (hasPolicyUpdate_of_promote hrun hupdated)
  rw [hupdated, eq_comm, Bool.not_eq_true'] at hdiffers
  rw [found?_of_head, hsource, List.head?_cons] at hfirst
  rw [found?_of_head, hcurrent, Option.head?_toList] at hsecond
  obtain ⟨hentry, hcheck⟩ := of_readFrom hfirst
  obtain rfl : (first.docId, first.source) = source := Option.some.inj hentry
  obtain ⟨-, hnames⟩ := Memory.mem_policiesIn.mp
    (hsource ▸ List.mem_singleton_self _ : (first.docId, first.source) ∈ _)
  have hkept : later.memory.mapping ".cti-policies" = world.memory.mapping ".cti-policies" := by
    rw [Memory.mapping, hafter.memory,
      Memory.get?_mappings_replay (mapping_of_carries hnames) calls]
    rfl
  obtain ⟨hfindable, hlost⟩ := found?_of_promoted hmapping hkept hdistinct (hcheck first rfl)
    hcurrent (of_readFrom hsecond).1 hdiffers hpolicies
  have hget : (get? target).Performs deployment later [] _ True :=
    performs_found h (hafter.probed hworld) target
  -- where there was no policy, the labels of the source are kept, and these could be read
  have halone : current = none → Content.Findable (world.memory.mapping ".cti-policies")
      ({} : ContentSettings).spaceFieldCandidates
        (promotedShape first.source (current.map Prod.snd)) := by
    rintro rfl
    rw [Option.map_none, Content.findable_congr (label?_promotedShape_none first.source)]
    exact Content.findable_of_namedIn hmapping (fun _ => id) hnames
  refine ⟨first.document, ?_⟩
  by_cases hshown : Content.Findable (world.memory.mapping ".cti-policies")
      ({} : ContentSettings).spaceFieldCandidates
        (promotedShape first.source (current.map Prod.snd))
  · obtain ⟨record, hfound, hhash⟩ := hfindable hshown
    rw [hfound] at hget
    refine ⟨_, hcheck first rfl, hget.yields, ?_, iff_of_true rfl hshown, fun _ => rfl⟩
    rintro other ⟨⟩
    exact hhash
  · rw [hlost hshown] at hget
    refine ⟨none, hcheck first rfl, hget.yields, ?_, iff_of_false Bool.false_ne_true hshown,
      fun hnone => absurd (halone hnone) hshown⟩
    rintro other ⟨⟩

/-! ### A policy that is lost -/

/-- The body of a policy in `test` that names its space under `space`. -/
def topBody : Table Json :=
  [("space", .text "test"), ("document", .object [("id", .text "p"), ("title", .text "new")])]

/-- The body of a policy in `custom` that names its space in its document. -/
def withinBody : Table Json :=
  [("document", .object
    [("id", .text "c"), ("title", .text "old"), ("space", .text "custom")])]

/-- A store with the two policies, whose index has a field for each of the two labels. -/
def crossedPolicies : World :=
  { memory :=
      { mappings := [(".cti-policies", [("space", "keyword"), ("document.space", "keyword")])]
        indexes := [(".cti-policies", [("p", topBody), ("c", withinBody)])] } }

theorem crossedPolicies_probed : crossedPolicies.Probed := by
  intro index _ fields hget
  cases hget

/-- What counts as content of a policy that has a title only, with its keys in order. -/
def titledContent (title : String) : Table Json :=
  [("author", .text ""), ("description", .text ""), ("documentation", .text ""),
   ("integrations", Json.texts []), ("references", Json.texts []), ("root_decoder", .text ""),
   ("title", .text title)]

theorem crossedPolicies_differ :
    ({ id := "c", title := "old", extra := [("space", .text "custom")] } : Policy).contentHash ≠
      ({ id := "p", title := "new" } : Policy).contentHash := by
  -- the fields are given in order, for `List.mergeSort` does not evaluate here
  have hold : Json.canonical (.object (Content.substance
      ({ id := "c", title := "old", extra := [("space", .text "custom")] } : Policy).fields
        ["id"])) = Json.sortedText (titledContent "old") :=
    Json.canonical_object_of_perm (by decide +kernel) (by decide) (by decide +kernel)
  have hnew : Json.canonical (.object (Content.substance
      ({ id := "p", title := "new" } : Policy).fields ["id"])) =
        Json.sortedText (titledContent "new") :=
    Json.canonical_object_of_perm (by decide +kernel) (by decide) (by decide +kernel)
  intro hsame
  have hdigest := String.ofList_injective hsame
  rw [Content.canonicalText, Content.canonicalText, hold, hnew] at hdigest
  exact absurd hdigest (by decide +kernel)

/-- What a promotion of the policy in `test` is asked with, where the ledger is fixed. -/
def policyOnly : ChangeSet := { policy := [⟨"p", .update⟩] }

def withoutLedger : Deployment := { fixedChanges := some (.object []) }

theorem found?_crossedPolicies :
    found? crossedPolicies.memory .test = .ok (some
      { docId := "p", space := .test, document := { id := "p", title := "new" }
        source := topBody }) ∧
    found? crossedPolicies.memory .custom = .ok (some
      { docId := "c", space := .custom
        document := { id := "c", title := "old", extra := [("space", .text "custom")] }
        source := withinBody }) :=
  ⟨rfl, rfl⟩

theorem exists_report_crossedPolicies :
    ∃ report later,
      (promote .test policyOnly).runOn withoutLedger crossedPolicies = (.ok report, later) := by
  have hread : ((do
      Gate.ensure .test
      let _ ← Preview.changesOf .test : Work Unit).runOn withoutLedger
        crossedPolicies).1.toOption.isSome = true := by
    decide +kernel
  obtain ⟨outcome, later, done, failed, hrun, -, hcourse⟩ :=
    @promote_course withoutLedger crossedPolicies .test .custom ⟨rfl, rfl, rfl, by decide⟩
      crossedPolicies_probed rfl policyOnly
  rw [Work.runOn_bind] at hread
  rcases hcourse with ⟨fault, gated, hgate, -⟩ | ⟨gated, hgate, ⟨fault, read, hledger, -⟩ | hcourse⟩
  · rw [hgate] at hread
    cases hread
  · rw [hgate] at hread
    dsimp only at hread
    rw [Work.runOn_bind, hledger] at hread
    cases hread
  · obtain ⟨fresh, read, time, -, hcourse⟩ := hcourse
    -- the only stage is that of the policy, and it has what it asks for
    have hstages : stages (plan policyOnly fresh) policyOnly.hasPolicyUpdate = [.policy] := rfl
    have hcalls : ∃ calls, Stage.policy.calls (plan policyOnly fresh) .test .custom time
        crossedPolicies.memory = .ok calls :=
      ⟨_, policy_calls_eq_ok_iff.mpr ⟨_, _, found?_crossedPolicies.1, found?_crossedPolicies.2,
        rfl⟩⟩
    obtain ⟨calls, hcalls⟩ := hcalls
    cases outcome with
    | ok report => exact ⟨report, later, hrun⟩
    | error fault =>
      rw [hstages] at hcourse
      cases hcourse with
      | onward accepted behind => cases behind
      | refused refusal =>
        rw [hcalls] at refusal
        cases refusal
      | broken raised =>
        obtain ⟨rule, hrule, -⟩ := raised
        cases hrule

/-- The promotion of the policy reports that it is updated, and then `custom` has none. -/
theorem promoted_policy_found_crossedPolicies :
    ∃ report later,
      (promote .test policyOnly).runOn withoutLedger crossedPolicies = (.ok report, later) ∧
      report.policyUpdated = true ∧
      (get? .custom).Yields withoutLedger later (.ok none) := by
  have hstandard : withoutLedger.Standard := ⟨rfl, rfl, rfl, by decide⟩
  obtain ⟨report, later, hrun⟩ := exists_report_crossedPolicies
  have hupdated : report.policyUpdated = true := by
    obtain ⟨source, current, time, calls, hsource, hcurrent, hupdated, -⟩ :=
      policies_of_promote hstandard crossedPolicies_probed rfl hrun rfl
    rw [found?_crossedPolicies.1] at hsource
    rw [found?_crossedPolicies.2] at hcurrent
    rw [hupdated, ← Option.some.inj (Except.ok.inj hsource), ← Except.ok.inj hcurrent]
    show (!(_ == _)) = true
    rw [Bool.not_eq_true', beq_eq_false_iff_ne]
    exact crossedPolicies_differ
  obtain ⟨policy, found, -, hget, -, hfound, -⟩ :=
    @promoted_policy_found withoutLedger crossedPolicies .test .custom hstandard
      crossedPolicies_probed (by decide) (by decide) ("p", topBody) (some ("c", withinBody)) rfl rfl
      rfl policyOnly report later hrun hupdated
  have hlost : ¬Content.Findable (crossedPolicies.memory.mapping ".cti-policies")
      ({} : ContentSettings).spaceFieldCandidates
      (promotedShape topBody (some withinBody)) := by
    rintro (⟨place, label, hlabel, -⟩ | ⟨-, hlegible⟩)
    · cases place <;> cases hlabel
    · cases hlegible
  cases found with
  | none => exact ⟨report, later, hrun, hupdated, hget⟩
  | some record => exact absurd (hfound.mp rfl) hlost

end Commit

end Lifecycle
