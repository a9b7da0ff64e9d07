import Lifecycle.Proofs.Counts
import Lifecycle.Proofs.Repetition

/-!
# Promotions in parts

What was shown of a space can be promoted in two parts, in either order (`promote_parts`). The
second promotion reads the ledger on a store that the first one has changed; but what the contents
ask for about an entity does not change when changes of other entities are carried out
(`Ledger.Part.after`), and neither does what is to be written of it (`Documents.CarriedOut.append`).
So both orders come to all of the changes being carried out, and there is one way only to do this
(`Documents.CarriedOut.get?_eq`), but for the time that the policy is saved at.
-/

namespace Lifecycle

/-! ### Changes that are carried out -/

variable {docs later last : Documents} {space target : Space} {changes more : List Change}

namespace Documents

/-- Documents in which changes were carried out: of what was to be added or updated there is the
copy that is made from the one in the space, of what was to be removed there is none, and all other
documents are as they were. -/
structure CarriedOut (docs later : Documents) (space target : Space) (changes : List Change) :
    Prop where
  changed : docs.Changed later target (Change.ids changes)
  written : ∀ id ∈ Change.ids (Change.writes changes), later.copyOf? target id =
    some (docs.placeOf target id, Commit.bodyFor docs space target id)
  removed : ∀ id ∈ Change.ids (Change.removals changes), later.copyOf? target id = none

namespace CarriedOut

/-- The copies in the space that the changes come from stay. -/
theorem copyOf?_eq (h : docs.CarriedOut later space target changes) (horderly : docs.Orderly)
    (hne : space ≠ target) (id : String) : later.copyOf? space id = docs.copyOf? space id :=
  h.changed.copyOf?_eq horderly fun heq => absurd heq hne

/-- Changes of other entities that are carried out behind the first ones. -/
theorem append (horderly : docs.Orderly) (hne : space ≠ target)
    (h : docs.CarriedOut later space target changes)
    (h' : later.CarriedOut last space target more)
    (hapart : ∀ id ∈ Change.ids changes, id ∉ Change.ids more) :
    docs.CarriedOut last space target (changes ++ more) := by
  -- the second changes leave the copies of the first ones
  have hkept : ∀ id ∈ Change.ids changes, last.copyOf? target id = later.copyOf? target id :=
    fun id hid => h'.changed.copyOf?_eq h.changed.orderly fun _ => hapart id hid
  constructor
  · rw [Change.ids, List.map_append]
    exact h.changed.trans h'.changed
  · intro id hid
    rw [Change.writes, List.filter_append, Change.ids, List.map_append] at hid
    rcases List.mem_append.mp hid with hid | hid
    · rw [hkept id (Change.mem_ids_of_writes hid), h.written id hid]
    · have hplace : later.placeOf target id = docs.placeOf target id :=
        h.changed.placeOf_eq horderly fun _ hin => hapart id hin (Change.mem_ids_of_writes hid)
      rw [h'.written id hid, hplace, Commit.bodyFor, Commit.bodyFor,
        h.copyOf?_eq horderly hne]
  · intro id hid
    rw [Change.removals, List.filter_append, Change.ids, List.map_append] at hid
    rcases List.mem_append.mp hid with hid | hid
    · rw [hkept id (Change.mem_ids_of_removals hid), h.removed id hid]
    · exact h'.removed id hid

theorem perm (h : docs.CarriedOut later space target changes) (hperm : changes.Perm more) :
    docs.CarriedOut later space target more := by
  have hids : ∀ {first second : List Change}, first.Perm second → ∀ id,
      (id ∈ Change.ids second ↔ id ∈ Change.ids first) :=
    fun hperm id => (hperm.map Change.id).mem_iff.symm
  refine ⟨⟨h.changed.orderly, ?_⟩, fun id hid => ?_, fun id hid => ?_⟩
  · rw [others_congr later target (hids hperm), others_congr docs target (hids hperm),
      h.changed.others]
  · exact h.written id ((hids (hperm.filter _) id).mp hid)
  · exact h.removed id ((hids (hperm.filter _) id).mp hid)

/-- There is one way only to carry out changes. -/
theorem get?_eq (h : docs.CarriedOut later space target changes)
    (h' : docs.CarriedOut last space target changes) (key : String) :
    Table.get? later key = Table.get? last key := by
  refine h.changed.get?_eq h'.changed (fun id hid => ?_) key
  obtain ⟨change, hmem, rfl⟩ := List.mem_map.mp hid
  rcases List.mem_append.mp ((Change.mem_ids_append changes change.id).mpr
    ⟨change.operation, hmem⟩) with hin | hin
  · rw [h.written _ hin, h'.written _ hin]
  · rw [h.removed _ hin, h'.removed _ hin]

end CarriedOut

end Documents

/-! ### Parts of what the contents ask for -/

namespace Ledger

/-- Changes that the contents ask for, though perhaps not all of them. -/
structure Part (docs : Documents) (space target : Space) (changes : List Change) : Prop where
  regular : Change.Regular changes
  asked : ∀ change ∈ changes, change ∈ entityChangesIn docs space target

namespace Part

variable (horderly : docs.Orderly) (h : Part docs space target changes)

include horderly h

theorem has {id : String} (hid : id ∈ Change.ids (Change.writes changes)) :
    docs.Has space id := by
  obtain ⟨operation, hmem, hkept⟩ := (Change.mem_ids_writes changes id).mp hid
  have hwrite : id ∈ writesIn docs space target :=
    (Change.mem_ids_writes _ id).mpr ⟨operation, h.asked _ hmem, hkept⟩
  exact has_of_mem_writesIn horderly hwrite

/-- Without tags a part is planned as it is. -/
theorem planIn_eq
    (htags : ∀ entry ∈ docs, Change.stripTag (Content.idOf entry.2) = Content.idOf entry.2) :
    planIn docs space target changes = changes :=
  Change.reconciled_eq_self h.regular (entityChangesIn_regular horderly space target) h.asked
    fun change hmem => stripTag_of_mem_entityChangesIn horderly htags change (h.asked change hmem)

theorem carriedOut
    (htags : ∀ entry ∈ docs, Change.stripTag (Content.idOf entry.2) = Content.idOf entry.2) :
    docs.CarriedOut (promotedIn docs space target changes) space target changes := by
  rw [promotedIn, plannedWrites, plannedRemovals, h.planIn_eq horderly htags]
  obtain ⟨⟨horderly', hothers⟩, hwritten, hremoved⟩ := Documents.edited_changed horderly target
    h.regular.nodup_parts fun id => h.has horderly
  have hids : ∀ id, id ∈ Change.ids changes ↔
      id ∈ Change.ids (Change.writes changes) ++ Change.ids (Change.removals changes) := by
    intro id
    rw [Change.mem_ids_append, Change.ids, List.mem_map]
    constructor
    · rintro ⟨change, hmem, rfl⟩
      exact ⟨change.operation, hmem⟩
    · rintro ⟨operation, hmem⟩
      exact ⟨_, hmem, rfl⟩
  refine ⟨⟨horderly', ?_⟩, hwritten, hremoved⟩
  rw [Documents.others_congr _ target hids, Documents.others_congr docs target hids, hothers]

/-- What the contents ask for is asked for still when changes of other entities are carried out. -/
theorem after (hne : space ≠ target) (hafter : docs.CarriedOut later space target more)
    (hapart : ∀ id ∈ Change.ids changes, id ∉ Change.ids more) :
    Part later space target changes := by
  refine ⟨h.regular, fun change hmem => ?_⟩
  have hasked := (mem_entityChangesIn horderly change).mp (h.asked change hmem)
  have hid : change.id ∈ Change.ids changes := List.mem_map_of_mem hmem
  rw [mem_entityChangesIn hafter.changed.orderly, contentOf?, contentOf?,
    hafter.copyOf?_eq horderly hne,
    hafter.changed.copyOf?_eq horderly fun _ => hapart _ hid]
  exact hasked

end Part

/-- What the contents ask for can be shared out in two parts, which are about different entities. -/
theorem parts_of_perm (horderly : docs.Orderly)
    (hperm : (changes ++ more).Perm (entityChangesIn docs space target)) :
    Part docs space target changes ∧ Part docs space target more ∧
      ∀ id ∈ Change.ids changes, id ∉ Change.ids more := by
  have hregular := entityChangesIn_regular horderly space target
  have hnodup : (Change.ids changes ++ Change.ids more).Nodup := by
    rw [Change.ids, Change.ids, ← List.map_append]
    exact (hperm.map Change.id).nodup_iff.mpr hregular.nodup
  obtain ⟨hchanges, hmore, hapart⟩ := List.nodup_append.mp hnodup
  have hasked : ∀ change ∈ changes ++ more, change ∈ entityChangesIn docs space target :=
    fun change hmem => hperm.mem_iff.mp hmem
  refine ⟨⟨⟨fun change hmem => ?_, hchanges⟩, fun change hmem => ?_⟩,
    ⟨⟨fun change hmem => ?_, hmore⟩, fun change hmem => ?_⟩, fun id hid hin => ?_⟩
  · exact hregular.nonempty change (hasked change (List.mem_append_left _ hmem))
  · exact hasked change (List.mem_append_left _ hmem)
  · exact hregular.nonempty change (hasked change (List.mem_append_right _ hmem))
  · exact hasked change (List.mem_append_right _ hmem)
  · exact hapart id hid id hin rfl

/-- There is a change of the policy only if the policies of both spaces can be read. -/
theorem stored?_of_policyChangesIn (hchanges : policyChangesIn docs space target = .ok changes)
    (hsome : changes ≠ []) :
    ∃ record current, Policies.stored? docs space = .ok (some record) ∧
      Policies.stored? docs target = .ok current := by
  rw [policyChangesIn] at hchanges
  rcases hsource : Policies.stored? docs space with fault | (- | record)
  · rw [hsource] at hchanges
    cases hchanges
  · rw [hsource] at hchanges
    cases hchanges
    exact absurd rfl hsome
  · rw [hsource] at hchanges
    rcases hcurrent : Policies.stored? docs target with fault | current
    · simp only [hcurrent] at hchanges
      cases hchanges
    · exact ⟨record, current, rfl, rfl⟩

/-- An update of the policy is shown only if the policies of both spaces can be read. -/
theorem exists_stored?_of_comparedIn {memory : Memory} {raw : ChangeSet}
    (hraw : comparedIn memory space target = .ok raw) :
    ∃ source current : Option PolicyRecord, source.isSome = raw.normalised.hasPolicyUpdate ∧
      ∀ record, source = some record →
        Policies.stored? memory.policies space = .ok (some record) ∧
          Policies.stored? memory.policies target = .ok current := by
  rw [comparedIn] at hraw
  cases hchanges : policyChangesIn memory.policies space target with
  | error fault => rw [hchanges] at hraw; cases hraw
  | ok changes =>
    rw [hchanges] at hraw
    cases hraw
    have hupdate : ∀ entities, (ChangeSet.build changes entities).normalised.hasPolicyUpdate =
        !(Change.normalised changes).isEmpty := fun _ => rfl
    rw [hupdate]
    by_cases hnone : Change.normalised changes = []
    · -- without an update there need be no policies
      refine ⟨none, none, by rw [hnone]; rfl, fun record hrecord => ?_⟩
      cases hrecord
    · have hsome : changes ≠ [] := by
        rintro rfl
        exact hnone rfl
      obtain ⟨record, current, hsource, hcurrent⟩ := stored?_of_policyChangesIn hchanges hsome
      refine ⟨some record, current, ?_, ?_⟩
      · rw [List.isEmpty_eq_false_iff.mpr hnone]
        rfl
      · intro found hfound
        cases Option.some.inj hfound
        exact ⟨hsource, hcurrent⟩

end Ledger

/-! ### Promotions in parts -/

/-- Two change sets share out a third one: each of its changes is in one of the two, and its changes
of the policy are in one of them together. -/
structure ChangeSet.Splits (whole first second : ChangeSet) : Prop where
  entities : ∀ type, (first.of type ++ second.of type).Perm (whole.of type)
  policy : first.policy = whole.policy ∧ second.policy = [] ∨
    first.policy = [] ∧ second.policy = whole.policy

theorem ChangeSet.Splits.symm {whole first second : ChangeSet} (h : whole.Splits first second) :
    whole.Splits second first :=
  ⟨fun type => List.perm_append_comm.trans (h.entities type),
    h.policy.symm.imp And.symm And.symm⟩

/-- The policy that a change set has changes of is to be promoted with one of its parts. -/
theorem ChangeSet.Splits.exists_or {whole first second : ChangeSet} (h : whole.Splits first second)
    {source : Option PolicyRecord} (hupdate : source.isSome = whole.hasPolicyUpdate) :
    ∃ promoted later : Option PolicyRecord, promoted.isSome = first.hasPolicyUpdate ∧
      later.isSome = second.hasPolicyUpdate ∧ (promoted = none ∨ later = none) ∧
        promoted.or later = source := by
  rcases h.policy with ⟨hfirst, hsecond⟩ | ⟨hfirst, hsecond⟩
  · refine ⟨source, none, ?_, ?_, .inr rfl, Option.or_none⟩
    · rw [hupdate, hasPolicyUpdate, hasPolicyUpdate, hfirst]
    · rw [hasPolicyUpdate, hsecond]
      rfl
  · refine ⟨none, source, ?_, ?_, .inl rfl, rfl⟩
    · rw [hasPolicyUpdate, hfirst]
      rfl
    · rw [hupdate, hasPolicyUpdate, hasPolicyUpdate, hsecond]

/-- Two stores have the same documents under the same storage ids, but for the times that policies
were last written at. -/
structure Memory.Agrees (memory other : Memory) : Prop where
  documents : ∀ index, index ≠ ".cti-policies" → ∀ key,
    Table.get? (memory.documents index) key = Table.get? (other.documents index) key
  policies : ∀ key, (Table.get? memory.policies key).map Content.unstamped =
    (Table.get? other.policies key).map Content.unstamped

namespace Commit

variable {deployment : Deployment} {world : World} {memory later : Memory}

/-- The counts of two reports add up to those of a third one. -/
structure Report.IsSum (whole first second : Report) : Prop where
  counts : ∀ type operation,
    whole.countOf type operation = first.countOf type operation + second.countOf type operation
  policy : whole.policyUpdated.toNat = first.policyUpdated.toNat + second.policyUpdated.toNat

end Commit

/-- A store after changes of each type were carried out in it, and a policy was promoted, if one
was. -/
structure Memory.Applied (memory later : Memory) (space target : Space)
    (changes : EntityType → List Change) (source current : Option PolicyRecord) : Prop where
  entities : ∀ type,
    (memory.entities type).CarriedOut (later.entities type) space target (changes type)
  policies : ∃ time, later.policies =
    Commit.policiesAfter memory.policies target source current time
  others : ∀ index, index ≠ ".cti-policies" →
    (∀ type, index ≠ ({} : ContentSettings).indexFor type) →
      later.documents index = memory.documents index

namespace Memory.Applied

variable {memory later last : Memory} {changes more : EntityType → List Change}
  {source current : Option PolicyRecord}

/-- There is one way only to apply changes, but for the time that a policy is saved at. -/
theorem agrees (h : memory.Applied later space target changes source current)
    (h' : memory.Applied last space target more source current)
    (hperm : ∀ type, (changes type).Perm (more type))
    (hstored : ∀ record, source = some record →
      Policies.stored? memory.policies space = .ok (some record) ∧
        Policies.stored? memory.policies target = .ok current) : later.Agrees last where
  documents index hindex key := by
    by_cases htype : ∃ type, index = ({} : ContentSettings).indexFor type
    · obtain ⟨type, rfl⟩ := htype
      exact ((h.entities type).perm (hperm type)).get?_eq (h'.entities type) key
    · have hnone := not_exists.mp htype
      rw [h.others index hindex hnone, h'.others index hindex hnone]
  policies key := by
    obtain ⟨time, hpolicies⟩ := h.policies
    obtain ⟨other, hpolicies'⟩ := h'.policies
    rw [hpolicies, hpolicies']
    exact Commit.unstamped_policiesAfter hstored time other key

/-- Changes of other entities that are applied behind the first ones, where the policy is promoted
with one of the two. -/
theorem append {promoted : Option PolicyRecord} (horderly : ∀ type, (memory.entities type).Orderly)
    (hne : space ≠ target) (h : memory.Applied later space target changes source current)
    (h' : later.Applied last space target more promoted current)
    (hapart : ∀ type, ∀ id ∈ Change.ids (changes type), id ∉ Change.ids (more type))
    (honce : source = none ∨ promoted = none) :
    memory.Applied last space target (fun type => changes type ++ more type)
      (source.or promoted) current where
  entities type := (h.entities type).append (horderly type) hne (h'.entities type) (hapart type)
  policies := by
    obtain ⟨time, hpolicies⟩ := h.policies
    obtain ⟨other, hpolicies'⟩ := h'.policies
    rw [hpolicies] at hpolicies'
    rcases honce with rfl | rfl
    · rw [Commit.policiesAfter_none] at hpolicies'
      exact ⟨other, hpolicies'⟩
    · rw [Commit.policiesAfter_none] at hpolicies'
      rw [Option.or_none]
      exact ⟨time, hpolicies'⟩
  others index hindex hnone := (h'.others index hindex hnone).trans (h.others index hindex hnone)

end Memory.Applied

namespace Commit

variable {deployment : Deployment} {world : World} {memory later : Memory}
  {first second : ChangeSet} {source promoted current : Option PolicyRecord}

/-- Contents are ready for a part of what they ask for, if the gate lets them pass and the policies
can be read. -/
theorem Ready.of_part (horderly : ∀ type, (memory.entities type).Orderly)
    (htags : ∀ type, ∀ entry ∈ memory.entities type,
      Change.stripTag (Content.idOf entry.2) = Content.idOf entry.2)
    (hgate : Gate.outcome memory space = .ok ())
    (hcompared : ∃ changes, Ledger.policyChangesIn memory.policies space target = .ok changes)
    (hparts : ∀ type, Ledger.Part (memory.entities type) space target (first.of type))
    (hupdate : source.isSome = first.hasPolicyUpdate)
    (hstored : ∀ record, source = some record →
      Policies.stored? memory.policies space = .ok (some record) ∧
        Policies.stored? memory.policies target = .ok current) :
    Ready memory space target first source current := by
  refine ⟨hgate, hcompared, fun type id hid => ?_, hupdate, hstored⟩
  rw [writeIds, planned, (hparts type).planIn_eq (horderly type) (htags type)] at hid
  exact (hparts type).has (horderly type) hid

/-- What the contents are ready for, they are ready for after changes of other entities are applied,
where the policy is promoted with one of the two. -/
theorem Ready.after (horderly : ∀ type, (memory.entities type).Orderly)
    (hpolicies : memory.policies.OrderlyPolicies) (hne : space ≠ target)
    (htags : ∀ type, ∀ entry ∈ later.entities type,
      Change.stripTag (Content.idOf entry.2) = Content.idOf entry.2)
    (hfirst : Ready memory space target first source current)
    (happlied : memory.Applied later space target first.of source current)
    (hsecond : Ready memory space target second promoted current)
    (hparts : ∀ type, Ledger.Part (memory.entities type) space target (second.of type))
    (hapart : ∀ type, ∀ id ∈ Change.ids (second.of type), id ∉ Change.ids (first.of type))
    (honce : source = none ∨ promoted = none) :
    Ready later space target second promoted current := by
  obtain ⟨time, hlater⟩ := happlied.policies
  obtain ⟨hspace, hcompared, -⟩ :=
    promoted_policiesAfter hpolicies hne hfirst.compared hfirst.policies time
  rw [← hlater] at hspace hcompared
  have horderly' : ∀ type, (later.entities type).Orderly :=
    fun type => (happlied.entities type).changed.orderly
  have hhas : ∀ type id, (later.entities type).Has space id ↔
      (memory.entities type).Has space id := by
    intro type id
    rw [Documents.Has, Documents.Has, (happlied.entities type).copyOf?_eq (horderly type) hne]
  refine .of_part horderly' htags ?_ hcompared (fun type => ?_) hsecond.update
    fun record hrecord => ?_
  · rw [← hsecond.gate]
    exact Gate.outcome_congr (horderly .decoders) (horderly' .decoders) hspace (hhas .decoders)
  · exact (hparts type).after (horderly type) hne (happlied.entities type) (hapart type)
  · -- the policy was not promoted with the first changes, for it is with the second ones
    have hkept : later.policies = memory.policies := by
      rw [hlater, honce.resolve_right (by rw [hrecord]; exact Option.some_ne_none _),
        policiesAfter_none]
    rw [hkept]
    exact hsecond.policies record hrecord

/-- Two change sets can be promoted one after the other, and what they leave and report is what a
promotion that is made at once leaves and reports. -/
def InParts (deployment : Deployment) (world : World) (space : Space) (first second : ChangeSet)
    (whole : Report) (memory : Memory) : Prop :=
  ∃ report middle report' last,
    (promote space first).runOn deployment world = (.ok report, middle) ∧
    (promote space second).runOn deployment middle = (.ok report', last) ∧
    whole.IsSum report report' ∧ last.memory.Agrees memory

section

variable (h : deployment.Standard) (hworld : world.Standing)
  (hledger : deployment.settings.changeLedger = .contentHash)
  (hfixed : deployment.fixedChanges = none) (hrules : world.rules = [])
  (horderly : ∀ type, (world.memory.entities type).Orderly)
  (htags : ∀ type, ∀ entry ∈ world.memory.entities type,
    Change.stripTag (Content.idOf entry.2) = Content.idOf entry.2)
  (htarget : space.target? = some target)

include h hworld hledger hfixed hrules horderly htags htarget

/-- A part of what the contents ask for, that they are ready for, is applied by a promotion. -/
theorem Ready.applies (hready : Ready world.memory space target first source current)
    (hparts : ∀ type, Ledger.Part (world.memory.entities type) space target (first.of type)) :
    ∃ last, (promote space first).runOn deployment world =
        (.ok (reportOf world.memory.entities first.of space target source current), last) ∧
      world.memory.Applied last.memory space target first.of source current ∧
      (∀ type, ∀ entry ∈ last.memory.entities type,
        Change.stripTag (Content.idOf entry.2) = Content.idOf entry.2) ∧
      last.Standing ∧ last.rules = [] := by
  obtain ⟨time, hperforms⟩ := hready.performs h hworld hledger hfixed horderly htags htarget
  obtain ⟨last, hrun, hafter⟩ := hperforms.run_eq hrules
  obtain ⟨hentities, hpolicies⟩ := replay_plannedScript horderly hready time
  rw [← hafter.memory] at hentities hpolicies
  have hplanned : planned world.memory space target first = first.of :=
    funext fun type => (hparts type).planIn_eq (horderly type) (htags type)
  rw [hplanned] at hrun
  refine ⟨last, hrun, ⟨fun type => ?_, ⟨time, hpolicies⟩, fun index hindex hnone => ?_⟩,
    fun type => ?_, hworld.after hafter, hafter.rules hrules⟩
  · rw [hentities]
    exact (hparts type).carriedOut (horderly type) (htags type)
  · rw [hafter.memory]
    apply Memory.documents_replay_of_ne
    rintro call hcall rfl
    rcases index_of_mem_script hcall with hpolicy | ⟨type, htype⟩
    · exact hindex hpolicy
    · exact hnone type htype
  · rw [hentities]
    exact Ledger.untagged_promotedIn (horderly type) (hready.sources type) (htags type)

/-- Two parts that the contents are ready for can be promoted one after the other. -/
theorem Ready.applies_parts (hpolicies : world.memory.policies.OrderlyPolicies)
    (hfirst : Ready world.memory space target first source current)
    (hsecond : Ready world.memory space target second promoted current)
    (hparts : ∀ type, Ledger.Part (world.memory.entities type) space target (first.of type))
    (hmore : ∀ type, Ledger.Part (world.memory.entities type) space target (second.of type))
    (hapart : ∀ type, ∀ id ∈ Change.ids (first.of type), id ∉ Change.ids (second.of type))
    (honce : source = none ∨ promoted = none) :
    ∃ report middle report' last,
      (promote space first).runOn deployment world = (.ok report, middle) ∧
      (promote space second).runOn deployment middle = (.ok report', last) ∧
      world.memory.Applied last.memory space target
        (fun type => first.of type ++ second.of type) (source.or promoted) current ∧
      ∀ {whole : EntityType → List Change},
        (∀ type, (first.of type ++ second.of type).Perm (whole type)) →
        (reportOf world.memory.entities whole space target (source.or promoted)
          current).IsSum report report' := by
  have hne := Space.ne_of_target? htarget
  have hapart' : ∀ type, ∀ id ∈ Change.ids (second.of type), id ∉ Change.ids (first.of type) :=
    fun type id hid hin => hapart type id hin hid
  obtain ⟨middle, hrun, happlied, htags', hworld', hrules'⟩ :=
    hfirst.applies h hworld hledger hfixed hrules horderly htags htarget hparts
  have horderly' : ∀ type, (middle.memory.entities type).Orderly :=
    fun type => (happlied.entities type).changed.orderly
  have hready := hfirst.after horderly hpolicies hne htags' happlied hsecond hmore hapart' honce
  have hmore' := fun type =>
    (hmore type).after (horderly type) hne (happlied.entities type) (hapart' type)
  obtain ⟨last, hrun', happlied', -⟩ :=
    hready.applies h hworld' hledger hfixed hrules' horderly' htags' htarget hmore'
  refine ⟨_, middle, _, last, hrun, hrun', happlied.append horderly hne happlied' hapart honce,
    fun {whole} hperm => ⟨fun type operation => ?_, ?_⟩⟩
  · -- the first changes have left the copies that the second ones remove
    have hremovals : present (middle.memory.entities type) target (removalIds second.of type) =
        present (world.memory.entities type) target (removalIds second.of type) := by
      apply (removalCalls_congr type fun id hid => ?_).2
      exact (happlied.entities type).changed.copyOf?_eq (horderly type) fun _ =>
        hapart' type id (Change.mem_ids_of_removals hid)
    rw [countOf_reportOf, countOf_reportOf, countOf_reportOf, hremovals,
      ← (hperm type).countP_eq, List.countP_append]
    split
    · have hids : (removalIds first.of type ++ removalIds second.of type).Perm
          (removalIds whole type) := by
        rw [removalIds, removalIds, Change.ids, Change.ids, ← List.map_append, Change.removals,
          Change.removals, ← List.filter_append]
        exact ((hperm type).filter _).map _
      rw [present, ← hids.countP_eq, List.countP_append]
      rfl
    · rfl
  · rcases honce with rfl | rfl
    · exact (Nat.zero_add _).symm
    · rw [Option.or_none]
      rfl

/-- Two parts of what the contents ask for leave and report what the whole leaves and reports. -/
theorem inParts_of_splits (hpolicies : world.memory.policies.OrderlyPolicies)
    (hgate : Gate.outcome world.memory space = .ok ())
    (hcompared : ∃ changes,
      Ledger.policyChangesIn world.memory.policies space target = .ok changes)
    {whole : ChangeSet} (hwhole : ∀ type, whole.of type =
      Ledger.entityChangesIn (world.memory.entities type) space target)
    (hupdate : source.isSome = whole.hasPolicyUpdate)
    (hstored : ∀ record, source = some record →
      Policies.stored? world.memory.policies space = .ok (some record) ∧
        Policies.stored? world.memory.policies target = .ok current)
    (hsplit : whole.Splits first second) {done : Memory}
    (hdone : world.memory.Applied done space target whole.of source current) :
    InParts deployment world space first second
      (reportOf world.memory.entities whole.of space target source current) done := by
  obtain ⟨promoted, later, hfirst, hsecond, honce, rfl⟩ := hsplit.exists_or hupdate
  have hparts := fun type => Ledger.parts_of_perm (horderly type)
    (hwhole type ▸ hsplit.entities type)
  -- each part is ready, the one that has the policy with the one that is stored
  have hready : Ready world.memory space target first promoted current :=
    .of_part horderly htags hgate hcompared (fun type => (hparts type).1) hfirst
      fun record hrecord => hstored record (by rw [hrecord]; rfl)
  have hready' : Ready world.memory space target second later current := by
    refine .of_part horderly htags hgate hcompared (fun type => (hparts type).2.1) hsecond
      fun record hrecord => hstored record ?_
    rw [honce.resolve_right (by rw [hrecord]; exact Option.some_ne_none _), hrecord]
    rfl
  obtain ⟨report, middle, report', last, hrun, hrun', happlied, hsum⟩ :=
    hready.applies_parts h hworld hledger hfixed hrules horderly htags htarget hpolicies hready'
      (fun type => (hparts type).1) (fun type => (hparts type).2.1)
      (fun type => (hparts type).2.2) honce
  exact ⟨report, middle, report', last, hrun, hrun', hsum hsplit.entities,
    happlied.agrees hdone hsplit.entities hstored⟩

end

end Commit

/-- What was shown can be promoted in two parts, in either order: both promotions return reports
whose counts add up to those of a promotion of the whole, and the same documents stand under the
same storage ids in the end, but for the time that the policy is saved at. -/
theorem promote_parts {deployment : Deployment} {world : World} (h : deployment.Standard)
    (hledger : deployment.settings.changeLedger = .contentHash)
    (hfixed : deployment.fixedChanges = none) (hworld : world.Standing)
    (hrules : world.rules = []) (horderly : ∀ type, (world.memory.entities type).Orderly)
    (htags : ∀ type, ∀ entry ∈ world.memory.entities type,
      Change.stripTag (Content.idOf entry.2) = Content.idOf entry.2)
    (hpolicies : world.memory.policies.OrderlyPolicies)
    (hspace : space = .draft ∨ space = .test)
    (hgate : ((Gate.ensure space).runOn deployment world).1 = .ok ())
    {shown first second : ChangeSet} {previewed : World}
    (hshown : (Preview.changesOf space).runOn deployment world = (.ok shown, previewed))
    (hsplit : shown.Splits first second) :
    ∃ whole done, (Commit.promote space shown).runOn deployment previewed = (.ok whole, done) ∧
      Commit.InParts deployment previewed space first second whole done.memory ∧
      Commit.InParts deployment previewed space second first whole done.memory := by
  obtain ⟨target, htarget⟩ : ∃ target, space.target? = some target := by
    rcases hspace with rfl | rfl
    · exact ⟨.test, by decide⟩
    · exact ⟨.custom, by decide⟩
  -- the preview has read the contents only
  have houtcome : Gate.outcome world.memory space = .ok () := by
    obtain ⟨gated, hrun, -⟩ := (Gate.performs_ensure h hworld space).run_eq hrules
    rw [hrun] at hgate
    exact hgate
  obtain ⟨hcompared, hread⟩ := (Preview.performs_changesOf h hworld hledger hfixed horderly
    htarget).of_ok hshown
  have hmemory : previewed.memory = world.memory := hread.memory_eq
  have hworld' := hworld.after hread
  have hrules' := hread.rules hrules
  obtain ⟨raw, hraw, rfl⟩ : ∃ raw, Ledger.comparedIn world.memory space target = .ok raw ∧
      shown = raw.normalised := by
    cases hraw : Ledger.comparedIn world.memory space target with
    | error fault => rw [hraw] at hcompared; cases hcompared
    | ok raw => rw [hraw] at hcompared; exact ⟨raw, rfl, (Except.ok.inj hcompared).symm⟩
  obtain ⟨hchanges, hentities⟩ := Ledger.of_comparedIn hraw
  rw [← hmemory] at houtcome horderly htags hpolicies hraw hchanges hentities
  obtain ⟨source, current, hupdate, hstored⟩ := Ledger.exists_stored?_of_comparedIn hraw
  have hwhole : ∀ type, raw.normalised.of type =
      Ledger.entityChangesIn (previewed.memory.entities type) space target := by
    intro type
    rw [ChangeSet.normalised_of, hentities,
      Ledger.normalised_entityChangesIn (horderly type) (htags type)]
  have hparts : ∀ type, Ledger.Part (previewed.memory.entities type) space target
      (raw.normalised.of type) := by
    intro type
    rw [hwhole]
    exact ⟨Ledger.entityChangesIn_regular (horderly type) space target, fun _ => id⟩
  have hready : Commit.Ready previewed.memory space target raw.normalised source current :=
    .of_part horderly htags houtcome hchanges hparts hupdate hstored
  obtain ⟨done, hrun, hdone, -⟩ := hready.applies h hworld' hledger hfixed hrules' horderly htags
    htarget hparts
  exact ⟨_, done, hrun,
    Commit.inParts_of_splits h hworld' hledger hfixed hrules' horderly htags htarget hpolicies
      houtcome hchanges hwhole hupdate hstored hsplit hdone,
    Commit.inParts_of_splits h hworld' hledger hfixed hrules' horderly htags htarget hpolicies
      houtcome hchanges hwhole hupdate hstored hsplit.symm hdone⟩

/-- What the linked draft shows, but for its integration. -/
def draftBasis : ChangeSet := { policy := [⟨"z", .update⟩], decoders := [⟨"x", .add⟩] }

def draftIntegration : ChangeSet := { integrations := [⟨"y", .add⟩] }

/-- The policy and the decoder of the linked draft are promoted before its integration, or behind
it. -/
theorem promote_parts_linkedDraft :
    ∃ shown previewed whole done,
      (Preview.changesOf .draft).runOn {} linkedDraft = (.ok shown, previewed) ∧
      shown.Splits draftBasis draftIntegration ∧
      (Commit.promote .draft shown).runOn {} previewed = (.ok whole, done) ∧
      Commit.InParts {} previewed .draft draftBasis draftIntegration whole done.memory ∧
      Commit.InParts {} previewed .draft draftIntegration draftBasis whole done.memory := by
  have horderly := linkedDraft_wellFormed.orderly
  have hgate : ((Gate.ensure .draft).runOn {} linkedDraft).1 = .ok () := by
    obtain ⟨gated, hrun, -⟩ := (Gate.performs_ensure Deployment.standard_default
      linkedDraft_standing .draft).run_eq rfl
    rw [hrun]
    show Gate.outcome linkedDraft.memory .draft = .ok ()
    decide +kernel
  have hfound : ((Preview.changesOf .draft).runOn {} linkedDraft).1.toOption =
      some { draftBasis with integrations := draftIntegration.integrations } := by
    decide +kernel
  rcases hshown : (Preview.changesOf .draft).runOn {} linkedDraft with ⟨fault | shown, previewed⟩
  · rw [hshown] at hfound
    cases hfound
  · rw [hshown] at hfound
    cases Option.some.inj hfound
    have hsplit : ChangeSet.Splits
        { draftBasis with integrations := draftIntegration.integrations } draftBasis
        draftIntegration :=
      ⟨fun type => by cases type <;> decide, .inl ⟨rfl, rfl⟩⟩
    obtain ⟨whole, done, hparts⟩ := promote_parts Deployment.standard_default rfl rfl
      linkedDraft_standing rfl horderly.entities horderly.untagged horderly.policies (.inl rfl)
      hgate hshown hsplit
    exact ⟨_, previewed, whole, done, rfl, hsplit, hparts⟩

end Lifecycle
