import Lifecycle.Proofs.Ledgers
import Lifecycle.Proofs.Convergence

/-!
# Tags in previews

The ledger that compares contents reports ids as the documents have them, and a preview takes the
tag off an id that looks as if it had one. Whatever the mappings of the indexes are, and also where
several documents have the same id, the report names each id that differs between the two spaces
once, with the operation that brings the successor up to date (`Ledger.mem_reported`). The preview
shows the first change of each id without its tag, so that it is the report exactly when no id in
it starts with a tag (`preview_of_reported`): the decoders `d_x` and `x` are shown as the one
decoder `x` (`preview_of_reported_taggedDecoders`).
-/

namespace Lifecycle

variable {deployment : Deployment} {world : World} {memory : Memory} {space target : Space}

/-- Every document of an entity has an id, a text that is not empty. -/
def Memory.Identified (memory : Memory) : Prop :=
  ∀ type, ∀ entry ∈ memory.entities type, Content.idOf entry.2 ≠ ""

namespace Ledger

/-! ### Hashes of a space -/

/-- The ids of the documents that name a space, with their content hashes. -/
def hashedEntries (memory : Memory) (type : EntityType) (space : Space) :
    List (String × String) :=
  ((memory.entities type).filter fun entry =>
    memory.carries (({} : ContentSettings).indexFor type) space entry.2).map fun entry =>
      (Content.idOf entry.2, Content.hash (Commit.documentOf entry.2) [])

/-- The content hashes that a space has; of documents with the same id the last one counts. -/
def hashTable (memory : Memory) (type : EntityType) (space : Space) : Table String :=
  Table.ofEntries (hashedEntries memory type space)

/-- The content hash that a space has for an id: that of the last document that names the space and
has the id. -/
def hashOf? (memory : Memory) (type : EntityType) (space : Space) (id : String) : Option String :=
  ((memory.entities type).reverse.find? fun entry =>
    memory.carries (({} : ContentSettings).indexFor type) space entry.2 &&
      Content.idOf entry.2 == id).map fun entry => Content.hash (Commit.documentOf entry.2) []

theorem get?_hashTable (type : EntityType) (id : String) :
    (hashTable memory type space).get? id = hashOf? memory type space id := by
  rw [hashTable, Table.get?_ofEntries, hashedEntries, ← List.map_reverse, ← List.filter_reverse,
    List.find?_map, Option.map_map, List.find?_filter, hashOf?]
  simp only [Bool.decide_and, Bool.decide_eq_true]
  rfl

theorem distinct_hashTable (type : EntityType) : (hashTable memory type space).Distinct :=
  Table.distinct_ofEntries _

theorem empty_not_mem_hashTable (h : memory.Identified) (type : EntityType) :
    "" ∉ (hashTable memory type space).keys := by
  rw [← Table.get?_eq_none_iff, get?_hashTable, hashOf?, Option.map_eq_none_iff,
    List.find?_eq_none]
  intro entry hentry hfound
  have hid := h type entry (List.mem_reverse.mp hentry)
  simp [hid] at hfound

/-- A document with an id is put under it with its content hash. -/
theorem addHash_eq_put (hit : Hit) (hid : Content.idOf hit.source ≠ "") (t : Table String) :
    addHash t hit = .ok (t.put (Content.idOf hit.source)
      (Content.hash (Commit.documentOf hit.source) [])) := by
  rw [addHash, Content.documentFields_of_id hid]
  simp only [bind, Except.bind, Content.under_id hid]
  rfl

/-- A scan for hashes gives those of all documents that name the space. -/
theorem performs_hashTable (h : deployment.Standard) (hworld : world.Probed)
    (hidentified : world.memory.Identified) (type : EntityType) (space : Space) :
    (hashes type space).Performs deployment world [] (.ok (hashTable world.memory type space)) := by
  have hfold : ∀ (entries : Documents) (t : Table String),
      (∀ entry ∈ entries, Content.idOf entry.2 ≠ "") →
      (entries.map (Store.toHit Content.documentView)).foldlM addHash t =
        .ok (Table.putAll t (entries.map fun entry =>
          (Content.idOf entry.2, Content.hash (Commit.documentOf entry.2) []))) := by
    -- each document has an id, so that none is passed over, and the last one of an id stays
    intro entries
    induction entries with
    | nil => exact fun _ _ => rfl
    | cons entry rest ih =>
      intro t hids
      have hid := hids entry List.mem_cons_self
      have hkey : Content.idOf (Store.toHit Content.documentView entry).source =
          Content.idOf entry.2 := Content.idOf_documentView hid
      have hdocument : Commit.documentOf (Store.toHit Content.documentView entry).source =
          Commit.documentOf entry.2 := Content.documentOf_documentView hid
      rw [List.map_cons, List.foldlM_cons, addHash_eq_put _ (hkey ▸ hid), hkey, hdocument]
      exact ih _ fun other hother => hids other (List.mem_cons_of_mem _ hother)
  have hscan : (hashes type space).Performs deployment world [] _ :=
    performs_hashes_scan h hworld type space
  rwa [hfold _ [] fun entry hentry =>
    hidentified type entry (List.mem_filter.mp hentry).1] at hscan

/-! ### The report -/

/-- What the ledger that compares contents reports, by the documents of all indexes. -/
def reported (memory : Memory) (space target : Space) : Except Fault ChangeSet :=
  (policyChangesBy (Policies.found? memory) space target).map fun policy =>
    ChangeSet.build policy fun type =>
      Change.between (hashTable memory type space) (hashTable memory type target)

theorem reported_of {changes : ChangeSet} (h : reported memory space target = .ok changes)
    (type : EntityType) :
    changes.of type =
      Change.between (hashTable memory type space) (hashTable memory type target) := by
  rw [reported] at h
  cases hpolicy : policyChangesBy (Policies.found? memory) space target with
  | error fault => rw [hpolicy] at h; cases h
  | ok policy =>
    rw [hpolicy] at h
    cases h
    cases type <;> rfl

/-- The report has a change for each id on which the spaces differ, and for no other. -/
theorem mem_reported {changes : ChangeSet} (h : reported memory space target = .ok changes)
    (type : EntityType) (change : Change) :
    change ∈ changes.of type ↔
      Change.operationFor (hashOf? memory type space change.id)
        (hashOf? memory type target change.id) = some change.operation := by
  rw [reported_of h, Change.mem_between (distinct_hashTable type) (distinct_hashTable type),
    get?_hashTable, get?_hashTable]

/-- The report names each id once. -/
theorem reported_regular (hidentified : memory.Identified) {changes : ChangeSet}
    (h : reported memory space target = .ok changes) (type : EntityType) :
    Change.Regular (changes.of type) := by
  rw [reported_of h]
  exact Change.between_regular (distinct_hashTable type) (distinct_hashTable type)
    (empty_not_mem_hashTable hidentified type) (empty_not_mem_hashTable hidentified type)

theorem performs_reported (h : deployment.Standard) (hworld : world.Probed)
    (hidentified : world.memory.Identified) (space target : Space) :
    (compared space target).Performs deployment world [] (reported world.memory space target) := by
  refine performs_compared_of (performs_policyChanges_of fun later hlater space => ?_)
    fun later hlater type space => ?_
  · have hget : (Policies.get? space).Performs deployment later [] _ :=
      Policies.performs_found h (hlater.probed hworld) space
    rwa [hlater.memory_eq] at hget
  · have hhashes := performs_hashTable h (hlater.probed hworld) (by rwa [hlater.memory_eq]) type
      space
    rwa [hlater.memory_eq] at hhashes

end Ledger

/-! ### The preview -/

/-- The ledger reports each id on which the spaces differ once and as it is, and a preview shows
the report without tags. So it shows the report itself exactly when no id in it starts with a
tag. -/
theorem preview_of_reported (h : deployment.Standard)
    (hledger : deployment.settings.changeLedger = .contentHash)
    (hfixed : deployment.fixedChanges = none) (hworld : world.Probed)
    (hrules : world.rules = []) (hidentified : world.memory.Identified)
    (htarget : space.target? = some target) :
    (∃ read, (Ledger.changes space target).runOn deployment world =
        (Ledger.reported world.memory space target, read)) ∧
      (∃ previewed, (Preview.changesOf space).runOn deployment world =
        ((Ledger.reported world.memory space target).map ChangeSet.normalised, previewed)) ∧
      ∀ raw, Ledger.reported world.memory space target = .ok raw → ∀ type,
        Change.Regular (raw.of type) ∧
        (∀ change, change ∈ raw.of type ↔
          Change.operationFor (Ledger.hashOf? world.memory type space change.id)
            (Ledger.hashOf? world.memory type target change.id) = some change.operation) ∧
        (∀ change, change ∈ raw.normalised.of type ↔
          change.id ≠ "" ∧ ((raw.of type).map Change.untagged).find?
            (fun other => other.id == change.id) = some change) ∧
        (raw.normalised.of type = raw.of type ↔
          ∀ change ∈ raw.of type, Change.stripTag change.id = change.id) := by
  have hcompared := Ledger.performs_reported h hworld hidentified space target
  have hchanges : (Ledger.changes space target).Performs deployment world []
      (Ledger.reported world.memory space target) := by
    apply Ledger.performs_changes_of
    rw [hfixed, hledger]
    exact hcompared
  obtain ⟨read, hread, -⟩ := hchanges.run_eq hrules
  obtain ⟨previewed, hpreviewed, -⟩ :=
    (Preview.performs_changesOf_of hledger hfixed htarget hcompared).run_eq hrules
  refine ⟨⟨read, hread⟩, ⟨previewed, hpreviewed⟩, fun raw hraw type => ?_⟩
  have hregular := Ledger.reported_regular hidentified hraw type
  refine ⟨hregular, Ledger.mem_reported hraw type, ?_, ?_⟩
  · intro change
    rw [ChangeSet.normalised_of, Change.mem_normalised]
  · rw [ChangeSet.normalised_of]
    exact Change.normalised_eq_self_iff hregular

/-- A store whose space `draft` has two decoders, one of which has an id that starts with a tag. -/
def taggedDecoders : World :=
  { memory :=
      { mappings := contentIndexes.map fun index => (index, Memory.defaultMapping)
        indexes :=
          [(".cti-decoders",
            [("a", draftBody [("id", .text "d_x")]), ("b", draftBody [("id", .text "x")])])] } }

/-- The ledger reports two decoders that are added, and the preview shows one. -/
theorem preview_of_reported_taggedDecoders :
    taggedDecoders.memory.Identified ∧
      (∃ read, (Ledger.changes .draft .test).runOn {} taggedDecoders =
        (.ok { decoders := [⟨"d_x", .add⟩, ⟨"x", .add⟩] }, read)) ∧
      (∃ previewed, (Preview.changesOf .draft).runOn {} taggedDecoders =
        (.ok { decoders := [⟨"x", .add⟩] }, previewed)) := by
  have hidentified : taggedDecoders.memory.Identified := by
    intro type
    cases type <;> decide
  have hprobed : taggedDecoders.Probed := by
    intro index _ fields hget
    cases hget
  have hreported : Ledger.reported taggedDecoders.memory .draft .test =
      .ok { decoders := [⟨"d_x", .add⟩, ⟨"x", .add⟩] } := by
    decide +kernel
  obtain ⟨hread, hpreviewed, -⟩ := preview_of_reported Deployment.standard_default rfl rfl hprobed
    rfl hidentified (show Space.target? .draft = some .test from rfl)
  rw [hreported] at hread hpreviewed
  refine ⟨hidentified, hread, ?_⟩
  have hnormal : ChangeSet.normalised { decoders := [⟨"d_x", .add⟩, ⟨"x", .add⟩] } =
      { decoders := [⟨"x", .add⟩] } := by
    decide
  rw [← hnormal]
  exact hpreviewed

end Lifecycle
