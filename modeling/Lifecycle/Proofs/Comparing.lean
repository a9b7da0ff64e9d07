import Lifecycle.Proofs.Execution
import Lifecycle.Proofs.Ledgers

/-!
# Changes by comparing contents

When the ledger compares contents, the changes of a type say for each id how the copies in the two
spaces differ (`mem_entityChangesIn`): the source of each write is there, that of a removal is not,
and an id without a change has the same content in both spaces. Where no id has a tag, a preview
shows these changes as they are (`shown_of`), and the one of the policy where its content differs
(`hasPolicyUpdate_shown`).
-/

namespace Lifecycle

variable {deployment : Deployment} {world : World} {memory : Memory} {space target : Space}

/-! ### Contents to compare -/

namespace Memory

/-- Contents that a promotion by comparing can start from: the indexes are orderly, no entity has a
tag in its id, and the change of a policy keeps an id without its tag. -/
structure Orderly (memory : Memory) : Prop where
  entities : ∀ type, (memory.entities type).Orderly
  untagged : ∀ type, ∀ entry ∈ memory.entities type,
    Change.stripTag (Content.idOf entry.2) = Content.idOf entry.2
  policies : memory.policies.OrderlyPolicies
  policyNamed : ∀ space record, Policies.stored? memory.policies space = .ok (some record) →
    Change.stripTag (Ledger.policyChange.change record).id ≠ ""

end Memory

/-! ### Changes of entities -/

namespace Ledger

variable {docs : Documents}

/-- The content hash of the copy of an entity in a space. -/
def contentOf? (docs : Documents) (space : Space) (id : String) : Option String :=
  (docs.copyOf? space id).map fun entry => Content.hash (Commit.documentOf entry.2) []

/-- A copy has the content of the one that its body is made from. -/
theorem contentOf?_of_bodyFor (h : docs.Orderly) {later : Documents} {key id : String}
    (hhas : docs.Has space id)
    (hcopy : later.copyOf? target id = some (key, Commit.bodyFor docs space target id)) :
    contentOf? later target id = contentOf? docs space id := by
  obtain ⟨entry, hentry⟩ := Option.isSome_iff_exists.mp hhas
  obtain ⟨hmem, -⟩ := Documents.copyOf?_mem hentry
  rw [contentOf?, contentOf?, hcopy, hentry, Option.map_some, Option.map_some, Commit.bodyFor,
    hentry]
  exact congrArg some (Content.hash_successorBody (h.identified entry hmem) target)

theorem distinct_hashesIn (h : docs.Orderly) (space : Space) : (hashesIn docs space).Distinct :=
  Documents.distinct_byId h _ _

theorem mem_entityChangesIn (h : docs.Orderly) (change : Change) :
    change ∈ entityChangesIn docs space target ↔
      Change.operationFor (contentOf? docs space change.id) (contentOf? docs target change.id) =
        some change.operation := by
  rw [entityChangesIn, Change.mem_between (distinct_hashesIn h space) (distinct_hashesIn h target),
    get?_hashesIn h, get?_hashesIn h]
  rfl

theorem entityChangesIn_eq_nil_iff (h : docs.Orderly) :
    entityChangesIn docs space target = [] ↔
      ∀ id, contentOf? docs space id = contentOf? docs target id := by
  rw [entityChangesIn,
    Change.between_eq_nil_iff (distinct_hashesIn h space) (distinct_hashesIn h target)]
  simp only [get?_hashesIn h]
  rfl

theorem empty_not_mem_hashesIn (h : docs.Orderly) (space : Space) :
    "" ∉ (hashesIn docs space).keys := by
  intro hmem
  rw [Table.keys, hashesIn, Documents.byId, List.map_map] at hmem
  obtain ⟨entry, hentry, hid⟩ := List.mem_map.mp hmem
  exact h.identified entry (List.mem_filter.mp hentry).1 hid

theorem entityChangesIn_regular (h : docs.Orderly) (space target : Space) :
    Change.Regular (entityChangesIn docs space target) :=
  Change.between_regular (distinct_hashesIn h space) (distinct_hashesIn h target)
    (empty_not_mem_hashesIn h space) (empty_not_mem_hashesIn h target)

theorem exists_of_mem_entityChangesIn (h : docs.Orderly) {change : Change}
    (hmem : change ∈ entityChangesIn docs space target) :
    ∃ entry ∈ docs, Content.idOf entry.2 = change.id := by
  have hop := (mem_entityChangesIn h change).mp hmem
  have hcopy : ∀ {other : Space} {hash : String}, contentOf? docs other change.id = some hash →
      ∃ entry ∈ docs, Content.idOf entry.2 = change.id := by
    intro other hash hhash
    obtain ⟨entry, hfound, -⟩ := Option.map_eq_some_iff.mp hhash
    obtain ⟨hentry, hcopy⟩ := Documents.copyOf?_mem hfound
    exact ⟨entry, hentry, ((Content.isCopy_iff _ _ _).mp hcopy).2⟩
  cases hsource : contentOf? docs space change.id with
  | some hash => exact hcopy hsource
  | none =>
    cases htarget : contentOf? docs target change.id with
    | some hash => exact hcopy htarget
    | none =>
      rw [hsource, htarget] at hop
      cases hop

theorem stripTag_of_mem_entityChangesIn (h : docs.Orderly)
    (htags : ∀ entry ∈ docs, Change.stripTag (Content.idOf entry.2) = Content.idOf entry.2) :
    ∀ change ∈ entityChangesIn docs space target, Change.stripTag change.id = change.id := by
  intro change hmem
  obtain ⟨entry, hentry, hid⟩ := exists_of_mem_entityChangesIn h hmem
  rw [← hid]
  exact htags entry hentry

/-- Without tags the changes are in normal form. -/
theorem normalised_entityChangesIn (h : docs.Orderly)
    (htags : ∀ entry ∈ docs, Change.stripTag (Content.idOf entry.2) = Content.idOf entry.2)
    (space target : Space) :
    Change.normalised (entityChangesIn docs space target) = entityChangesIn docs space target :=
  (Change.normalised_eq_self_iff (entityChangesIn_regular h space target)).mpr
    (stripTag_of_mem_entityChangesIn h htags)

/-- The ids of the copies that are to be written. -/
def writesIn (docs : Documents) (space target : Space) : List String :=
  Change.ids (Change.writes (entityChangesIn docs space target))

/-- The ids of the copies that are to be removed. -/
def removalsIn (docs : Documents) (space target : Space) : List String :=
  Change.ids (Change.removals (entityChangesIn docs space target))

theorem nodup_writesIn_append (h : docs.Orderly) (space target : Space) :
    (writesIn docs space target ++ removalsIn docs space target).Nodup :=
  (entityChangesIn_regular h space target).nodup_parts

/-- What is to be written has a copy in the space. -/
theorem has_of_mem_writesIn (h : docs.Orderly) {id : String}
    (hmem : id ∈ writesIn docs space target) :
    docs.Has space id := by
  obtain ⟨operation, hchange, hkept⟩ := (Change.mem_ids_writes _ id).mp hmem
  have hop := (mem_entityChangesIn h _).mp hchange
  have hsome := (Change.operationFor_ne_remove hop).mp hkept
  rwa [contentOf?, Option.isSome_map] at hsome

/-- What is to be removed has no copy in the space. -/
theorem copyOf?_eq_none_of_mem_removalsIn (h : docs.Orderly) {id : String}
    (hmem : id ∈ removalsIn docs space target) :
    docs.copyOf? space id = none := by
  have hop := (mem_entityChangesIn h _).mp ((Change.mem_ids_removals _ id).mp hmem)
  have hnone := mt (Change.operationFor_ne_remove hop).mpr (not_not.mpr rfl)
  simpa [contentOf?] using hnone

/-- What is neither to be written nor to be removed has the same content in both spaces. -/
theorem contentOf?_eq_of_not_mem (h : docs.Orderly) {id : String}
    (hwrites : id ∉ writesIn docs space target) (hremovals : id ∉ removalsIn docs space target) :
    contentOf? docs space id = contentOf? docs target id := by
  rw [← Change.operationFor_eq_none_iff]
  cases hop : Change.operationFor (contentOf? docs space id) (contentOf? docs target id) with
  | none => rfl
  | some operation =>
    have hmem := (mem_entityChangesIn h ⟨id, operation⟩).mpr hop
    by_cases hremove : operation = .remove
    · rw [hremove] at hmem
      exact absurd ((Change.mem_ids_removals _ id).mpr hmem) hremovals
    · exact absurd ((Change.mem_ids_writes _ id).mpr ⟨operation, hmem, hremove⟩) hwrites

end Ledger

/-! ### What is shown -/

namespace Ledger

/-- The policy to promote, if its content is not that of the successor's. -/
def differing (source current : Option PolicyRecord) : Option PolicyRecord :=
  source.filter fun record => !Commit.samePolicy record current

theorem differing_eq_none_iff (record : PolicyRecord) (current : Option PolicyRecord) :
    differing (some record) current = none ↔ Commit.samePolicy record current = true := by
  rw [differing, Option.filter_some]
  cases Commit.samePolicy record current <;> simp

/-- The change of the policy, if there is one to promote. -/
def policyChangesOf (source current : Option PolicyRecord) : List Change :=
  (differing source current).elim [] fun record => [policyChange.change record]

theorem policyChange_eq (source : PolicyRecord) (current : Option PolicyRecord) :
    policyChange source current = policyChangesOf (some source) current := by
  rw [policyChangesOf, differing, Option.filter]
  cases current with
  | none => rfl
  | some record =>
    rw [policyChange, Commit.samePolicy, Option.any_some]
    by_cases hsame : (record.document.contentHash == source.document.contentHash) = true
    · rw [if_pos hsame, hsame]
      rfl
    · rw [if_neg hsame, Bool.eq_false_iff.mpr hsame]
      rfl

/-- What the documents say of the policy when the policies can be read. -/
theorem policyChangesIn_eq {docs : Documents} {source current : Option PolicyRecord}
    (hsource : Policies.stored? docs space = .ok source)
    (hcurrent : Policies.stored? docs target = .ok current) :
    policyChangesIn docs space target = .ok (policyChangesOf source current) := by
  rw [policyChangesIn, hsource]
  cases source with
  | none => rfl
  | some record =>
    rw [← policyChange_eq]
    show (do
      let current ← Policies.stored? docs target
      pure (policyChange record current)) = _
    rw [hcurrent]
    rfl

/-- What the documents say when the policies can be read. -/
theorem comparedIn_eq {source current : Option PolicyRecord}
    (hsource : Policies.stored? memory.policies space = .ok source)
    (hcurrent : Policies.stored? memory.policies target = .ok current) :
    comparedIn memory space target =
      .ok (ChangeSet.build (policyChangesOf source current) fun type =>
        entityChangesIn (memory.entities type) space target) := by
  rw [comparedIn, policyChangesIn_eq hsource hcurrent]
  rfl

/-- What the documents say of the entities when the policies can be compared. -/
theorem of_comparedIn {raw : ChangeSet} (hraw : comparedIn memory space target = .ok raw) :
    (∃ changes, policyChangesIn memory.policies space target = .ok changes) ∧
      ∀ type, raw.of type = entityChangesIn (memory.entities type) space target := by
  rw [comparedIn] at hraw
  cases hchanges : policyChangesIn memory.policies space target with
  | error fault => rw [hchanges] at hraw; cases hraw
  | ok changes =>
    rw [hchanges] at hraw
    cases hraw
    exact ⟨⟨changes, rfl⟩, fun type => by cases type <;> rfl⟩

/-- What a preview shows. -/
def shown (memory : Memory) (space target : Space) (source current : Option PolicyRecord) :
    ChangeSet :=
  (ChangeSet.build (policyChangesOf source current) fun type =>
    entityChangesIn (memory.entities type) space target).normalised

variable {source current : Option PolicyRecord}

/-- Without tags the entities are shown as the documents say. -/
theorem shown_of (hmemory : memory.Orderly) (type : EntityType) :
    (shown memory space target source current).of type =
      entityChangesIn (memory.entities type) space target := by
  have hnormal := normalised_entityChangesIn (hmemory.entities type) (hmemory.untagged type) space
    target
  cases type <;> exact hnormal

/-- An update of the policy is shown when there is one to promote. -/
theorem hasPolicyUpdate_shown (hmemory : memory.Orderly)
    (hsource : Policies.stored? memory.policies space = .ok source) :
    (shown memory space target source current).hasPolicyUpdate =
      (differing source current).isSome := by
  have hpolicy : (shown memory space target source current).policy =
      Change.normalised (policyChangesOf source current) := rfl
  rw [ChangeSet.hasPolicyUpdate, hpolicy, policyChangesOf]
  cases hdiffers : differing source current with
  | none => rfl
  | some record =>
    obtain ⟨hrecord, -⟩ := Option.filter_eq_some_iff.mp hdiffers
    have hnamed := hmemory.policyNamed space record (by rw [hsource, hrecord])
    have hkept : Change.normalised [policyChange.change record] =
        [Change.untagged (policyChange.change record)] := by
      rw [Change.normalised, List.map_singleton]
      apply Change.firstOfEach_eq_self
      · refine ⟨fun change hmem => ?_, List.nodup_singleton _⟩
        rw [List.mem_singleton.mp hmem]
        exact hnamed
      · simp
    rw [Option.elim_some, hkept]
    rfl

end Ledger

end Lifecycle
