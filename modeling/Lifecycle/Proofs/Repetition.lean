import Lifecycle.Proofs.Convergence
import Lifecycle.Proofs.Removals

/-!
# Promotions that are made twice

A change is *apt* for the contents of a space if it removes what the space does not have, and adds
or updates what it has (`Documents.Apt`). What is planned for an apt change is of its kind, whatever
the successor has, so that a second promotion of apt changes plans what the first one did, and finds
it done. For any other change the first promotion makes the ledger silent about the id, or makes it
ask for the opposite, and the second one undoes what the first one did, or has no source to copy
(`Ledger.apt_of_repeats`). So a promotion can be repeated, and changes nothing then, exactly if all
of its changes are apt (`promote_repeats_iff`).
-/

namespace Lifecycle

variable {deployment : Deployment} {world : World} {space target : Space}

/-! ### Edits that change nothing -/

namespace Documents

variable {docs : Documents} {written removed : List String}

/-- Putting the copies that are there, and removing none that are there, changes nothing. -/
theorem edited_eq_self (h : docs.Orderly)
    (hwritten : ∀ id ∈ written, docs.copyOf? target id =
      some (docs.placeOf target id, Commit.bodyFor docs space target id))
    (hremoved : ∀ id ∈ removed, docs.copyOf? target id = none) :
    docs.edited space target written removed = docs := by
  have hput : docs.putCopies target (Commit.bodyFor docs space target) written = docs := by
    rw [putCopies]
    refine List.foldlRecOn written _ (motive := fun later => later = docs) rfl ?_
    rintro later rfl id hmem
    obtain ⟨hentry, -⟩ := copyOf?_mem (hwritten id hmem)
    exact Table.put_eq_self ((h.distinct.get?_eq_some_iff _ _).mpr hentry)
  rw [edited, hput, removeCopies]
  refine List.foldlRecOn removed _ (motive := fun later => later = docs) rfl ?_
  rintro later rfl id hmem
  rw [hremoved id hmem]
  rfl

/-- Changes are apt for a space if they remove just what it does not have. -/
def Apt (docs : Documents) (space : Space) (changes : List Change) : Prop :=
  ∀ change ∈ changes, change.operation = .remove ↔ ¬docs.Has space change.id

instance (docs : Documents) (space : Space) (changes : List Change) :
    Decidable (docs.Apt space changes) :=
  inferInstanceAs (Decidable (∀ change ∈ changes,
    change.operation = .remove ↔ ¬docs.Has space change.id))

end Documents

/-! ### Plans in a row -/

namespace Ledger

variable {docs : Documents} {submitted : List Change} {id : String}

/-- What is submitted is planned to be written or to be removed. -/
theorem mem_planned_of_submitted (h : docs.Orderly) {change : Change}
    (hmem : change ∈ Change.normalised submitted) :
    change.id ∈ plannedWrites docs space target submitted ∨
      change.id ∈ plannedRemovals docs space target submitted := by
  rw [← List.mem_append, plannedWrites, plannedRemovals, Change.mem_ids_append]
  exact ⟨_, (mem_planIn h submitted change.id _).mpr ⟨change.operation, hmem, rfl⟩⟩

/-- Where the contents agree, an id is planned as it is submitted. -/
theorem mem_planIn_of_silent (h : docs.Orderly) {change : Change}
    (hmem : change ∈ Change.normalised submitted)
    (hsilent : askedOf? docs space target change.id = none) :
    change ∈ planIn docs space target submitted := by
  refine (mem_planIn h submitted change.id change.operation).mpr ⟨change.operation, hmem, ?_⟩
  rw [hsilent, Option.getD_none]

/-- What is planned for an apt change is of its kind. -/
theorem planned_ne_remove_iff {given : Operation} (hapt : given = .remove ↔ ¬docs.Has space id) :
    (askedOf? docs space target id).getD given ≠ .remove ↔ docs.Has space id := by
  cases hasked : askedOf? docs space target id with
  | none => rw [Option.getD_none, Ne, hapt, not_not]
  | some operation => exact asked_ne_remove_iff hasked

theorem mem_plannedWrites_of_apt (h : docs.Orderly)
    (hapt : docs.Apt space (Change.normalised submitted)) :
    id ∈ plannedWrites docs space target submitted ↔
      id ∈ Change.ids (Change.normalised submitted) ∧ docs.Has space id := by
  rw [plannedWrites, Change.mem_ids_writes, Change.ids, List.mem_map]
  constructor
  · rintro ⟨operation, hplanned, hkept⟩
    obtain ⟨given, hmem, rfl⟩ := (mem_planIn h submitted id operation).mp hplanned
    exact ⟨⟨⟨id, given⟩, hmem, rfl⟩, (planned_ne_remove_iff (hapt _ hmem)).mp hkept⟩
  · rintro ⟨⟨change, hmem, rfl⟩, hhas⟩
    exact ⟨_, (mem_planIn h submitted change.id _).mpr ⟨change.operation, hmem, rfl⟩,
      (planned_ne_remove_iff (hapt _ hmem)).mpr hhas⟩

theorem mem_plannedRemovals_of_apt (h : docs.Orderly)
    (hapt : docs.Apt space (Change.normalised submitted)) :
    id ∈ plannedRemovals docs space target submitted ↔
      id ∈ Change.ids (Change.normalised submitted) ∧ ¬docs.Has space id := by
  rw [plannedRemovals, Change.mem_ids_removals, mem_planIn h, Change.ids, List.mem_map]
  constructor
  · rintro ⟨given, hmem, hremoved⟩
    refine ⟨⟨⟨id, given⟩, hmem, rfl⟩, fun hhas => ?_⟩
    exact (planned_ne_remove_iff (hapt _ hmem)).mpr hhas hremoved
  · rintro ⟨⟨change, hmem, rfl⟩, hnot⟩
    refine ⟨change.operation, hmem, ?_⟩
    by_contra hkept
    exact hnot ((planned_ne_remove_iff (hapt _ hmem)).mp hkept)

section

variable (h : docs.Orderly)
  (hsources : ∀ id ∈ plannedWrites docs space target submitted, docs.Has space id)
  (hne : space ≠ target)

include h hsources

/-- No id comes new with the documents of a plan that is carried out. -/
theorem exists_id_of_mem_promotedIn {entry : Query.Entry}
    (hmem : entry ∈ promotedIn docs space target submitted) :
    ∃ earlier ∈ docs, Content.idOf earlier.2 = Content.idOf entry.2 := by
  obtain ⟨hchanged, -, hremoved⟩ := promotedIn_changed h hsources
  by_cases hplanned : Scope.belongs target entry.2 = true ∧
      Content.idOf entry.2 ∈ plannedWrites docs space target submitted ++
        plannedRemovals docs space target submitted
  · obtain ⟨hbelongs, hid⟩ := hplanned
    have hcopy := (hchanged.orderly.copyOf?_eq_some_iff entry).mpr
      ⟨hmem, (Content.isCopy_iff _ _ _).mpr ⟨hbelongs, rfl⟩⟩
    rcases List.mem_append.mp hid with hwrite | hremoval
    · obtain ⟨source, hsource⟩ := Option.isSome_iff_exists.mp (hsources _ hwrite)
      obtain ⟨hin, hcopy⟩ := Documents.copyOf?_mem hsource
      exact ⟨source, hin, ((Content.isCopy_iff _ _ _).mp hcopy).2⟩
    · rw [hremoved _ hremoval] at hcopy
      cases hcopy
  · have hother := (Documents.mem_others _ target _ entry).mpr ⟨hmem, hplanned⟩
    rw [hchanged.others] at hother
    exact ⟨entry, ((Documents.mem_others _ target _ entry).mp hother).1, rfl⟩

theorem untagged_promotedIn
    (htags : ∀ entry ∈ docs, Change.stripTag (Content.idOf entry.2) = Content.idOf entry.2) :
    ∀ entry ∈ promotedIn docs space target submitted,
      Change.stripTag (Content.idOf entry.2) = Content.idOf entry.2 := by
  intro entry hentry
  obtain ⟨earlier, hearlier, hid⟩ := exists_id_of_mem_promotedIn h hsources hentry
  rw [← hid]
  exact htags earlier hearlier

include hne

theorem has_promotedIn (id : String) :
    (promotedIn docs space target submitted).Has space id ↔ docs.Has space id := by
  rw [Documents.Has, Documents.Has, copyOf?_promotedIn h hsources hne]

/-- Of what was written the ledger says nothing any more. -/
theorem askedOf?_of_written (hwrite : id ∈ plannedWrites docs space target submitted) :
    askedOf? (promotedIn docs space target submitted) space target id = none := by
  obtain ⟨-, hwritten, -⟩ := promotedIn_changed h hsources
  rw [asked_eq_none_iff, contentOf?_of_bodyFor h (hsources id hwrite) (hwritten id hwrite),
    contentOf?, contentOf?, copyOf?_promotedIn h hsources hne]

/-- What was removed is asked for again if the space has it. -/
theorem askedOf?_of_removed (hremoval : id ∈ plannedRemovals docs space target submitted) :
    askedOf? (promotedIn docs space target submitted) space target id =
      if docs.Has space id then some .add else none := by
  obtain ⟨-, -, hremoved⟩ := promotedIn_changed h hsources
  have hgone : contentOf? (promotedIn docs space target submitted) target id = none := by
    rw [contentOf?, hremoved id hremoval, Option.map_none]
  rw [askedOf?, hgone, contentOf?, copyOf?_promotedIn h hsources hne]
  by_cases hhas : docs.Has space id
  · obtain ⟨entry, hentry⟩ := Option.isSome_iff_exists.mp hhas
    rw [if_pos hhas, hentry]
    rfl
  · rw [if_neg hhas, Option.not_isSome_iff_eq_none.mp hhas]
    rfl

/-- Changes are apt if a second promotion finds its sources, and what the first one made. -/
theorem apt_of_repeats
    (hagain : ∀ id ∈ plannedWrites (promotedIn docs space target submitted) space target submitted,
      (promotedIn docs space target submitted).Has space id)
    (hsame : promotedIn (promotedIn docs space target submitted) space target submitted =
      promotedIn docs space target submitted) :
    docs.Apt space (Change.normalised submitted) := by
  intro change hmem
  obtain ⟨hchanged, hwritten, hremoved⟩ := promotedIn_changed h hsources
  have horderly := hchanged.orderly
  obtain ⟨-, hwritten', hremoved'⟩ := promotedIn_changed horderly hagain
  rw [hsame] at hwritten' hremoved'
  have hplanned : askedOf? (promotedIn docs space target submitted) space target change.id = none →
      change ∈ planIn (promotedIn docs space target submitted) space target submitted :=
    mem_planIn_of_silent horderly hmem
  by_cases hthere : docs.Has space change.id
  · refine iff_of_false (fun hremove => ?_) (not_not.mpr hthere)
    rcases mem_planned_of_submitted h hmem with hfirst | hfirst
    · -- the copy that was written agrees with its source, and is then removed as submitted
      have hwhole : (⟨change.id, .remove⟩ : Change) = change := by rw [← hremove]
      have hgone := hremoved' change.id ((Change.mem_ids_removals _ _).mpr
        (hwhole ▸ hplanned (askedOf?_of_written h hsources hne hfirst)))
      rw [hwritten _ hfirst] at hgone
      cases hgone
    · -- the copy that was removed is asked for again
      have hasked := askedOf?_of_removed h hsources hne hfirst
      rw [if_pos hthere] at hasked
      have hback := hwritten' change.id ((Change.mem_ids_writes _ _).mpr
        ⟨.add, (mem_planIn horderly submitted _ _).mpr
          ⟨change.operation, hmem, by rw [hasked, Option.getD_some]⟩, by decide⟩)
      rw [hremoved _ hfirst] at hback
      cases hback
  · refine iff_of_true ?_ hthere
    by_contra hkept
    -- no copy is left in either space, so that the change has to find its source
    have hfirst := (mem_planned_of_submitted h hmem).resolve_left fun hwrite =>
      hthere (hsources _ hwrite)
    have hsilent := askedOf?_of_removed h hsources hne hfirst
    rw [if_neg hthere] at hsilent
    have hwrite := (Change.mem_ids_writes _ _).mpr
      ⟨change.operation, hplanned hsilent, hkept⟩
    exact hthere ((has_promotedIn h hsources hne _).mp (hagain _ hwrite))

/-- A second promotion of apt changes finds its sources, and what the first one made. -/
theorem repeats_of_apt (hapt : docs.Apt space (Change.normalised submitted)) :
    (∀ id ∈ plannedWrites (promotedIn docs space target submitted) space target submitted,
        (promotedIn docs space target submitted).Has space id) ∧
      promotedIn (promotedIn docs space target submitted) space target submitted =
        promotedIn docs space target submitted := by
  obtain ⟨hchanged, hwritten, hremoved⟩ := promotedIn_changed h hsources
  have hhas := has_promotedIn h hsources hne
  set later := promotedIn docs space target submitted with hlater
  have horderly : later.Orderly := hchanged.orderly
  have hapt' : later.Apt space (Change.normalised submitted) :=
    fun change hmem => (hapt change hmem).trans (not_congr (hhas change.id)).symm
  refine ⟨fun id hmem => ((mem_plannedWrites_of_apt horderly hapt').mp hmem).2, ?_⟩
  apply Documents.edited_eq_self horderly
  · intro id hmem
    rw [mem_plannedWrites_of_apt horderly hapt', hhas, ← mem_plannedWrites_of_apt h hapt] at hmem
    rw [Commit.bodyFor, copyOf?_promotedIn h hsources hne, Documents.placeOf, hwritten id hmem]
    rfl
  · intro id hmem
    rw [mem_plannedRemovals_of_apt horderly hapt', hhas, ← mem_plannedRemovals_of_apt h hapt]
      at hmem
    exact hremoved id hmem

end

end Ledger

/-! ### The gate and the policy -/

/-- The gate finds a decoder if the space has a copy of it. -/
theorem Gate.hasDecoder_iff {docs : Documents} (h : docs.Orderly) (space : Space)
    (decoder : String) : Gate.hasDecoder docs space decoder = true ↔ docs.Has space decoder := by
  rw [Gate.hasDecoder, Documents.Has, Documents.copyOf?, List.find?_isSome, List.any_eq_true]
  refine exists_congr fun entry => and_congr_right fun hmem => ?_
  rw [Content.hasIdAmong_eq (h.identified entry hmem), Content.isCopy]
  simp

/-- The gate judges a space by its policy and by the copies that it has. -/
theorem Gate.outcome_congr {memory later : Memory} (h : (memory.entities .decoders).Orderly)
    (h' : (later.entities .decoders).Orderly)
    (hpolicy : Policies.stored? later.policies space = Policies.stored? memory.policies space)
    (hhas : ∀ id, (later.entities .decoders).Has space id ↔
      (memory.entities .decoders).Has space id) :
    Gate.outcome later space = Gate.outcome memory space := by
  have hdecoder : ∀ decoder, Gate.hasDecoder (later.entities .decoders) space decoder =
      Gate.hasDecoder (memory.entities .decoders) space decoder := by
    intro decoder
    rw [Bool.eq_iff_iff, Gate.hasDecoder_iff h', Gate.hasDecoder_iff h, hhas]
  have hsatisfied : ∀ policy, Gate.satisfiedBy (later.entities .decoders) space policy =
      Gate.satisfiedBy (memory.entities .decoders) space policy := by
    rintro (- | record)
    · rfl
    · rw [Gate.satisfiedBy, Gate.satisfiedBy, hdecoder]
  rw [Gate.outcome, Gate.outcome, hpolicy]
  simp only [hsatisfied]

namespace Commit

/-- After the policy is promoted, if it is, the policies of both spaces can be compared, that of the
space is the same, and that of the successor does not differ from one that was promoted. -/
theorem promoted_policiesAfter {docs : Documents} (h : docs.OrderlyPolicies) (hne : space ≠ target)
    (hcompared : ∃ changes, Ledger.policyChangesIn docs space target = .ok changes)
    {source current : Option PolicyRecord} (hstored : ∀ record, source = some record →
      Policies.stored? docs space = .ok (some record) ∧
        Policies.stored? docs target = .ok current) (time : Instant) :
    Policies.stored? (policiesAfter docs target source current time) space =
        Policies.stored? docs space ∧
      (∃ changes, Ledger.policyChangesIn (policiesAfter docs target source current time) space
        target = .ok changes) ∧
      ∃ renewed, ∀ record, source = some record →
        (Policies.stored? (policiesAfter docs target source current time) space =
            .ok (some record) ∧
          Policies.stored? (policiesAfter docs target source current time) target =
            .ok renewed) ∧
        samePolicy record renewed = true := by
  cases source with
  | none => exact ⟨rfl, hcompared, none, nofun⟩
  | some record =>
    obtain ⟨hsource, hcurrent⟩ := hstored record rfl
    have hafter : policiesAfter docs target (Ledger.differing (some record) current) current time =
        policiesAfter docs target (some record) current time := by
      cases hsame : samePolicy record current with
      | true =>
        rw [(Ledger.differing_eq_none_iff record current).mpr hsame]
        simp [policiesAfter, promotedPolicies, hsame]
      | false => rw [Ledger.differing, Option.filter_some, hsame]; rfl
    obtain ⟨renewed, hsource', hrenewed, hdiffers⟩ :=
      exists_stored?_policiesAfter h hne hsource hcurrent time
    rw [hafter] at hsource' hrenewed
    refine ⟨hsource'.trans hsource.symm, ⟨_, Ledger.policyChangesIn_eq hsource' hrenewed⟩, renewed,
      ?_⟩
    rintro _ ⟨⟩
    exact ⟨⟨hsource', hrenewed⟩, (Ledger.differing_eq_none_iff record renewed).mp hdiffers⟩

/-! ### Promotions in a row -/

/-- Contents that were ready for apt changes are ready for them again after a promotion, and there
is no policy left to save then. -/
theorem Ready.again {memory later : Memory} {submitted : ChangeSet}
    {source current : Option PolicyRecord}
    (hready : Ready memory space target submitted source current) (hne : space ≠ target)
    (horderly : ∀ type, (memory.entities type).Orderly)
    (hpolicies : memory.policies.OrderlyPolicies) {time : Instant}
    (hentities : ∀ type, later.entities type =
      Ledger.promotedIn (memory.entities type) space target (submitted.of type))
    (hlater : later.policies = policiesAfter memory.policies target source current time)
    (hapt : ∀ type, (memory.entities type).Apt space (Change.normalised (submitted.of type))) :
    ∃ renewed, Ready later space target submitted source renewed ∧
      ∀ again, policiesAfter later.policies target source renewed again = later.policies := by
  obtain ⟨hspace, hcompared, renewed, hrenewed⟩ :=
    promoted_policiesAfter hpolicies hne hready.compared hready.policies time
  rw [← hlater] at hspace hcompared hrenewed
  refine ⟨renewed, ⟨?_, hcompared, fun type => ?_, hready.update, fun record hrecord =>
    (hrenewed record hrecord).1⟩, fun again => ?_⟩
  · rw [← hready.gate]
    have hchanged := Ledger.promotedIn_changed (horderly .decoders) (hready.sources .decoders)
    apply Gate.outcome_congr (horderly _) (hentities _ ▸ hchanged.1.orderly) hspace
    intro id
    rw [hentities]
    exact Ledger.has_promotedIn (horderly .decoders) (hready.sources .decoders) hne id
  · obtain ⟨hsources, -⟩ :=
      Ledger.repeats_of_apt (horderly type) (hready.sources type) hne (hapt type)
    rw [← hentities] at hsources
    exact hsources
  · cases source with
    | none => rfl
    | some record =>
      rw [policiesAfter, Option.elim_some, promotedPolicies, if_pos (hrenewed record rfl).2]

/-- Only a space with a successor is promoted. -/
theorem exists_target?_of_promote {submitted : ChangeSet} {report : Report} {later : World}
    (hrun : (promote space submitted).runOn deployment world = (.ok report, later)) :
    ∃ target, space.target? = some target := by
  rw [promote, Work.runOn_bind, Work.runOn_ofExcept, Preview.successor] at hrun
  cases htarget : space.target? with
  | some target => exact ⟨target, rfl⟩
  | none => rw [htarget] at hrun; cases (Prod.mk.inj hrun).1

end Commit

/-- A promotion that reports success can be made again, and leaves all contents as they are then,
exactly if it was asked to remove just what its space does not have. -/
theorem promote_repeats_iff (h : deployment.Standard)
    (hledger : deployment.settings.changeLedger = .contentHash)
    (hfixed : deployment.fixedChanges = none) (hworld : world.Standing)
    (hrules : world.rules = []) (horderly : ∀ type, (world.memory.entities type).Orderly)
    (htags : ∀ type, ∀ entry ∈ world.memory.entities type,
      Change.stripTag (Content.idOf entry.2) = Content.idOf entry.2)
    (hpolicies : world.memory.policies.OrderlyPolicies) {submitted : ChangeSet}
    {report : Commit.Report} {later : World}
    (hrun : (Commit.promote space submitted).runOn deployment world = (.ok report, later)) :
    (∃ again last, (Commit.promote space submitted).runOn deployment later = (.ok again, last) ∧
      (∀ type, last.memory.entities type = later.memory.entities type) ∧
        last.memory.policies = later.memory.policies) ↔
      ∀ type, (world.memory.entities type).Apt space (Change.normalised (submitted.of type)) := by
  obtain ⟨target, htarget⟩ := Commit.exists_target?_of_promote hrun
  have hne := Space.ne_of_target? htarget
  obtain ⟨source, current, time, hready, hafter⟩ :=
    Commit.after_promote h hworld hledger hfixed horderly htags htarget hrun
  obtain ⟨hentities, hpolicies'⟩ := Commit.replay_plannedScript horderly hready time
  rw [← hafter.memory] at hentities hpolicies'
  have hstanding := hworld.after hafter
  -- what the first promotion left is in order for a second one
  have horderly' : ∀ type, (later.memory.entities type).Orderly := by
    intro type
    rw [hentities]
    exact (Ledger.promotedIn_changed (horderly type) (hready.sources type)).1.orderly
  have htags' : ∀ type, ∀ entry ∈ later.memory.entities type,
      Change.stripTag (Content.idOf entry.2) = Content.idOf entry.2 := by
    intro type
    rw [hentities]
    exact Ledger.untagged_promotedIn (horderly type) (hready.sources type) (htags type)
  constructor
  · rintro ⟨again, last, hagain, hsame, -⟩ type
    obtain ⟨source', current', time', hready', hafter'⟩ :=
      Commit.after_promote h hstanding hledger hfixed horderly' htags' htarget hagain
    have hagain : ∀ id ∈ Ledger.plannedWrites (later.memory.entities type) space target
        (submitted.of type), (later.memory.entities type).Has space id := hready'.sources type
    have hsame := hsame type
    rw [hafter'.memory, (Commit.replay_plannedScript horderly' hready' time').1, hentities] at hsame
    rw [hentities] at hagain
    exact Ledger.apt_of_repeats (horderly type) (hready.sources type) hne hagain hsame
  · intro hapt
    obtain ⟨renewed, hready', hsaved⟩ :=
      hready.again hne horderly hpolicies hentities hpolicies' hapt
    obtain ⟨time', hperforms⟩ :=
      hready'.performs h hstanding hledger hfixed horderly' htags' htarget
    obtain ⟨last, hagain, hafter'⟩ := hperforms.run_eq (hafter.rules hrules)
    obtain ⟨hentities', hpolicies''⟩ := Commit.replay_plannedScript horderly' hready' time'
    rw [← hafter'.memory] at hentities' hpolicies''
    refine ⟨_, last, hagain, fun type => ?_, ?_⟩
    · rw [hentities', hentities]
      exact (Ledger.repeats_of_apt (horderly type) (hready.sources type) hne (hapt type)).2
    · rw [hpolicies'', hsaved]

/-- A request to remove a decoder that `test` has, and `custom` has under another name, does not end
the second time as it did the first time. -/
theorem promote_repeats_iff_copiedDecoder :
    ∃ report later,
      (Commit.promote .test decoderRemoval).runOn {} (copiedDecoder "old") = (.ok report, later) ∧
      ¬∃ again last,
        (Commit.promote .test decoderRemoval).runOn {} later = (.ok again, last) ∧
        (∀ type, last.memory.entities type = later.memory.entities type) ∧
          last.memory.policies = later.memory.policies := by
  obtain ⟨report, later, hrun⟩ := exists_promoted_copiedDecoder "old"
  have hiff := promote_repeats_iff Deployment.standard_default rfl rfl
    (copiedDecoder_standing "old") rfl (copiedDecoder_orderly "old")
    (copiedDecoder_untagged "old") ⟨Table.Distinct.nil, nofun, nofun, nofun⟩ hrun
  have hnot : ¬((copiedDecoder "old").memory.entities .decoders).Apt .test
      (Change.normalised decoderRemoval.decoders) := by
    decide
  exact ⟨report, later, hrun, fun hagain => hnot (hiff.mp hagain .decoders)⟩

end Lifecycle
