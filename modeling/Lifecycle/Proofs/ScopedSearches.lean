import Lifecycle.Proofs.Resolution

/-!
# Searches in a space

A search in memory goes through the documents that its query finds, orders them, and gives a page of
them (`Memory.pageOf`). Behind a query that is scoped to a space, these are documents that the query
finds and that name the space in a candidate, whatever a probe of the index has told; and they are
all that name it in a candidate that can be searched, where the probe told what the mapping does or
failed (`Resolver.searchWithin_exact`).

So it makes no difference to a search whether the probe of its index worked.
-/

namespace Lifecycle

/-! ### Lists that are gone through -/

section

variable {ε α β : Type}

/-- Filtering that has an outcome has an answer for every item. -/
theorem exists_of_filterM_eq_ok {test : α → Except ε Bool} {items kept : List α}
    (h : items.filterM test = .ok kept) : ∀ item ∈ items, ∃ found, test item = .ok found := by
  have haux : ∀ before kept, items.filterAuxM test before = .ok kept →
      ∀ item ∈ items, ∃ found, test item = .ok found := by
    clear h kept
    induction items with
    | nil => exact fun _ _ _ item hitem => absurd hitem List.not_mem_nil
    | cons first rest ih =>
      intro before kept h item hitem
      rw [List.filterAuxM] at h
      cases hfirst : test first with
      | error fault =>
        rw [hfirst] at h
        cases h
      | ok found =>
        rw [hfirst] at h
        rcases List.mem_cons.mp hitem with rfl | hrest
        · exact ⟨found, hfirst⟩
        · exact ih _ _ h item hrest
  rw [List.filterM] at h
  cases hkept : items.filterAuxM test [] with
  | error fault =>
    rw [hkept] at h
    cases h
  | ok before => exact haux [] before hkept

/-- Values that were had one after another are each of some item. -/
theorem exists_of_mem_mapM {f : α → Except ε β} {items : List α} {results : List β}
    (h : items.mapM f = .ok results) {result : β} (hresult : result ∈ results) :
    ∃ item ∈ items, f item = .ok result := by
  induction items generalizing results with
  | nil =>
    cases h
    cases hresult
  | cons item rest ih =>
    rw [List.mapM_cons] at h
    cases hfirst : f item with
    | error fault =>
      rw [hfirst] at h
      cases h
    | ok first =>
      cases hrest : rest.mapM f with
      | error fault =>
        rw [hfirst, hrest] at h
        cases h
      | ok others =>
        rw [hfirst, hrest] at h
        cases h
        rcases List.mem_cons.mp hresult with rfl | hother
        · exact ⟨item, List.mem_cons_self, hfirst⟩
        · obtain ⟨other, hmem, hother⟩ := ih hrest hother
          exact ⟨other, List.mem_cons_of_mem _ hmem, hother⟩

/-- Of each item there is a value among those that were had one after another. -/
theorem exists_of_mapM_eq_ok {f : α → Except ε β} {items : List α} {results : List β}
    (h : items.mapM f = .ok results) {item : α} (hitem : item ∈ items) :
    ∃ result ∈ results, f item = .ok result := by
  induction items generalizing results with
  | nil => cases hitem
  | cons first rest ih =>
    rw [List.mapM_cons] at h
    cases hfirst : f first with
    | error fault =>
      rw [hfirst] at h
      cases h
    | ok result =>
      cases hrest : rest.mapM f with
      | error fault =>
        rw [hfirst, hrest] at h
        cases h
      | ok others =>
        rw [hfirst, hrest] at h
        cases h
        rcases List.mem_cons.mp hitem with rfl | hmem
        · exact ⟨result, List.mem_cons_self, hfirst⟩
        · obtain ⟨other, hother, hvalue⟩ := ih hrest hmem
          exact ⟨other, List.mem_cons_of_mem _ hother, hvalue⟩

end

/-! ### Sorted documents -/

namespace Query

variable {entries sorted : List Entry}

/-- Of documents with the texts that they are ordered by, all but those without the field are left.
-/
theorem map_sortKeys (field : String) (entries : List Entry) :
    (entries.filterMap fun entry => (sortKey? field entry).map fun key => (key, entry)).map (·.2) =
      entries.filter fun entry => (sortKey? field entry).isSome := by
  rw [List.map_filterMap, ← List.filterMap_eq_filter]
  apply List.filterMap_congr
  intro entry _
  cases hkey : sortKey? field entry <;> simp [Option.guard, hkey]

/-- Ordering documents by a field leaves which documents they are. -/
theorem perm_orderedBy (field : String) (descending : Bool) (entries : List Entry) :
    (orderedBy field descending entries).Perm entries := by
  set keyed := entries.filterMap fun entry => (sortKey? field entry).map fun key => (key, entry)
    with hkeyed
  have hmap : keyed.map (·.2) = entries.filter fun entry => (sortKey? field entry).isSome :=
    map_sortKeys field entries
  have hothers : (entries.filter fun entry => (sortKey? field entry).isNone) =
      entries.filter fun entry => !(sortKey? field entry).isSome := by
    simp
  have hsorted : ((keyed.mergeSort (inOrder descending)).map (·.2)).Perm (keyed.map (·.2)) :=
    (List.mergeSort_perm keyed _).map _
  rw [orderedBy, ← hkeyed, hothers]
  rw [hmap] at hsorted
  exact (hsorted.append_right _).trans (List.filter_append_perm _ _)

theorem perm_orderedByClause {clause : Json} (h : orderedByClause clause entries = .ok sorted) :
    sorted.Perm entries := by
  rw [orderedByClause] at h
  cases hsole : soleField false clause with
  | error fault =>
    rw [hsole] at h
    cases h
  | ok part =>
    obtain ⟨field, options⟩ := part
    rw [hsole] at h
    dsimp only [bind, Except.bind] at h
    split at h
    · cases h
      exact List.Perm.refl _
    · cases hdescending : isDescending options with
      | error fault =>
        rw [hdescending] at h
        cases h
      | ok descending =>
        rw [hdescending] at h
        cases h
        exact perm_orderedBy field descending entries

/-- A sort leaves which documents they are. -/
theorem perm_ordered {sort : Json} (h : ordered sort entries = .ok sorted) :
    sorted.Perm entries := by
  have hfold : ∀ (clauses : List Json) (entries sorted : List Entry),
      clauses.foldlM (fun entries clause => orderedByClause clause entries) entries = .ok sorted →
        sorted.Perm entries := by
    intro clauses
    induction clauses with
    | nil =>
      intro entries sorted h
      cases h
      exact List.Perm.refl _
    | cons clause rest ih =>
      intro entries sorted h
      rw [List.foldlM_cons] at h
      cases hclause : orderedByClause clause entries with
      | error fault =>
        rw [hclause] at h
        cases h
      | ok next =>
        rw [hclause] at h
        exact (ih next sorted h).trans (perm_orderedByClause hclause)
  rw [ordered] at h
  cases hclauses : sortClauses sort with
  | error fault =>
    rw [hclauses] at h
    cases h
  | ok clauses =>
    rw [hclauses] at h
    exact hfold _ entries sorted h

theorem mem_of_mem_slice {α : Type} {items : List α} {first last : Int} {item : α}
    (h : item ∈ slice items first last) : item ∈ items :=
  List.mem_of_mem_drop (List.mem_of_mem_take h)

end Query

/-! ### Pages -/

namespace Memory

variable {memory : Memory} {index : String} {asked : Search} {matched : List Query.Entry}

/-- The page that a search gives of the documents that its query finds. -/
def pageOf (asked : Search) (matched : List Query.Entry) : Except Fault Page := do
  let ordered ← Query.ordered asked.sort matched
  let hits ← (Query.slice ordered asked.first (asked.first + asked.size)).mapM fun entry => do
    let source ← Query.projected asked.source entry.2
    pure (Hit.mk entry.1 source)
  pure ⟨matched.length, hits⟩

theorem search_of_found (h : memory.found index asked.query = .ok matched) :
    memory.search index asked = pageOf asked matched := by
  rw [search, h]
  rfl

/-- The parts of a page: how many documents were found, and hits that show some of them. -/
theorem of_pageOf {page : Page} (h : pageOf asked matched = .ok page) :
    page.total = matched.length ∧ ∃ ordered, Query.ordered asked.sort matched = .ok ordered ∧
      (Query.slice ordered asked.first (asked.first + asked.size)).mapM (fun entry => do
        let source ← Query.projected asked.source entry.2
        pure (Hit.mk entry.1 source)) = .ok page.hits := by
  rw [pageOf] at h
  cases hordered : Query.ordered asked.sort matched with
  | error fault =>
    rw [hordered] at h
    cases h
  | ok ordered =>
    rw [hordered] at h
    dsimp only [bind, Except.bind] at h
    split at h
    · cases h
    · rename_i hits hhits
      cases h
      exact ⟨rfl, ordered, rfl, hhits⟩

/-- Every hit of a page shows a document that was found. -/
theorem exists_of_mem_hits {page : Page} (h : pageOf asked matched = .ok page) {hit : Hit}
    (hhit : hit ∈ page.hits) :
    ∃ entry ∈ matched, hit.id = entry.1 ∧
      Query.projected asked.source entry.2 = .ok hit.source := by
  obtain ⟨-, ordered, hordered, hhits⟩ := of_pageOf h
  obtain ⟨entry, hentry, hshown⟩ := exists_of_mem_mapM hhits hhit
  refine ⟨entry, (Query.perm_ordered hordered).subset (Query.mem_of_mem_slice hentry), ?_⟩
  cases hsource : Query.projected asked.source entry.2 with
  | error fault =>
    rw [hsource] at hshown
    cases hshown
  | ok source =>
    rw [hsource] at hshown
    cases hshown
    exact ⟨rfl, rfl⟩

/-- A page of the documents that were found. If it has room for all and shows them whole, its hits
are these documents. -/
structure Shows (asked : Search) (matched : List Query.Entry) (page : Page) : Prop where
  page_eq : pageOf asked matched = .ok page
  total : page.total = matched.length
  hits : asked.first = 0 → matched.length ≤ asked.size → asked.source = .null →
    page.hits.Perm (matched.map fun entry => ⟨entry.1, entry.2⟩)

theorem shows_of_pageOf {page : Page} (h : pageOf asked matched = .ok page) :
    Shows asked matched page := by
  obtain ⟨htotal, ordered, hordered, hhits⟩ := of_pageOf h
  refine ⟨h, htotal, fun hfirst hroom hwhole => ?_⟩
  have hperm := Query.perm_ordered hordered
  have hslice : Query.slice ordered asked.first (asked.first + asked.size) = ordered := by
    have hsize : 0 ≤ asked.size := by omega
    have hall : ordered.length ≤ asked.size.toNat := by
      rw [hperm.length_eq]
      omega
    rw [hfirst]
    exact (Store.slice_page ordered 0 hsize).trans (List.take_of_length_le hall)
  rw [hslice, hwhole] at hhits
  have hmap : ordered.mapM (fun entry => do
      let source ← Query.projected .null entry.2
      pure (Hit.mk entry.1 source)) = .ok (ordered.map fun entry => ⟨entry.1, entry.2⟩) :=
    Store.mapM_eq_map fun entry _ => rfl
  rw [hmap] at hhits
  rw [← Except.ok.inj hhits]
  exact hperm.map _

/-- What a query finds that is no fault on any document. -/
theorem found_of_answers {query : Json}
    (h : ∀ entry ∈ memory.documents index,
      Query.Answers ⟨memory.mapping index, entry.1, entry.2⟩ query) :
    memory.found index query = .ok ((memory.documents index).filter fun entry =>
      Query.finds ⟨memory.mapping index, entry.1, entry.2⟩ query) := by
  refine filterM_eq_filter _ _ _ fun entry hentry => ?_
  obtain ⟨found, hfound⟩ := h entry hentry
  rw [Query.finds_of_holds hfound, hfound]

/-- A query that finds documents is no fault on any. -/
theorem answers_of_found {query : Json} (h : memory.found index query = .ok matched) :
    ∀ entry ∈ memory.documents index,
      Query.Answers ⟨memory.mapping index, entry.1, entry.2⟩ query :=
  exists_of_filterM_eq_ok h

end Memory

/-! ### Searches behind a scoped query -/

namespace Resolver

/-- A search behind its query scoped to a space. -/
def searchWithin (index name : String) (asked : Search) : Work Page := do
  let query ← scopedQuery index (some name) asked.query
  Store.search index { asked with query }

/-- The documents of an index that a query finds and that have a name in one of some fields that can
be searched. -/
def matching (memory : Memory) (index : String) (fields : List String) (name : String)
    (query : Json) : List Query.Entry :=
  (memory.documents index).filter fun entry =>
    Query.finds ⟨memory.mapping index, entry.1, entry.2⟩ query &&
      Scope.namedIn (memory.mapping index) fields name entry.2

section

variable {deployment : Deployment} {world : World} {index name : String} {asked : Search}
  {narrow : Json}

/-- A scoped search finds what the query finds and names the space in the space fields, if it finds
anything. -/
theorem found_narrow {matched : List Query.Entry} {fields : List String}
    (hnarrow : Scope.Restricts narrow asked.query (Scope.filter name fields))
    (hfields : fields ≠ []) (h : world.memory.found index narrow = .ok matched) :
    matched = matching world.memory index fields name asked.query := by
  have hfound := Memory.found_of_answers (Memory.answers_of_found h)
  rw [h] at hfound
  rw [Except.ok.inj hfound, matching]
  congr 1
  funext entry
  exact Scope.finds_restricted hnarrow hfields _

/-- Where the query is no fault, a scoped search finds what the query finds and names the space in
the space fields. -/
theorem found_narrow_of_answers {fields : List String}
    (hnarrow : Scope.Restricts narrow asked.query (Scope.filter name fields))
    (hfields : fields ≠ [])
    (hanswers : ∀ entry ∈ world.memory.documents index,
      Query.Answers ⟨world.memory.mapping index, entry.1, entry.2⟩ asked.query) :
    world.memory.found index narrow =
      .ok (matching world.memory index fields name asked.query) := by
  have hfound := Memory.found_of_answers fun entry hentry =>
    hnarrow.answers _ _ (Scope.holds_filter_namedIn _ name hfields) (hanswers entry hentry)
  rw [hfound]
  exact congrArg Except.ok (found_narrow hnarrow hfields hfound)

/-- What is kept about the space fields of indexes stems from probes. -/
def Stemming (deployment : Deployment) (world : World) : Prop :=
  ∀ index fields, world.spaceFields.get? index = some fields →
    ∃ outcome, fields = ofOutcome deployment.settings.spaceFieldCandidates outcome

theorem Stemming.of_nil (h : world.spaceFields = []) : Stemming deployment world := by
  intro index fields hkept
  rw [h] at hkept
  cases hkept

theorem Stemming.fieldsOf (h : Stemming deployment world) (index : String) :
    ∃ outcome, fieldsOf deployment world index =
      ofOutcome deployment.settings.spaceFieldCandidates outcome := by
  rw [Resolver.fieldsOf]
  cases hkept : world.spaceFields.get? index with
  | some fields => exact h index fields hkept
  | none => exact ⟨_, rfl⟩

/-- A probe keeps what stems from it. -/
theorem Stemming.put (h : Stemming deployment world) (index : String)
    (outcome : Except Fault Json) :
    Stemming deployment
      { world with
        spaceFields := world.spaceFields.put index
          (ofOutcome deployment.settings.spaceFieldCandidates outcome) } := by
  intro other fields hfields
  rw [Table.get?_put] at hfields
  split at hfields
  · cases hfields
    exact ⟨outcome, rfl⟩
  · exact h other fields hfields

variable {candidates : List String} (hbackend : deployment.backend = .memory)
  (hcandidates : deployment.settings.spaceFieldCandidates = candidates) (hsome : candidates ≠ [])
  (hname : name ≠ "") (hstemming : Stemming deployment world)
  (hquery : Query.Given (fun _ _ => True) asked.query)

include hbackend hcandidates hsome hname hstemming hquery

variable (index) in
/-- A search in a space is one behind a query that restricts the one asked. -/
theorem exists_searchWithin :
    ∃ narrow, Scope.Restricts narrow asked.query
        (Scope.filter name (fieldsOf deployment world index).search) ∧
      (fieldsOf deployment world index).search ≠ [] ∧
      (searchWithin index name asked).Yields deployment world
        (world.memory.search index { asked with query := narrow }) := by
  obtain ⟨outcome, houtcome⟩ := hstemming.fieldsOf index
  obtain ⟨narrow, happly, hnarrow⟩ :=
    Scope.restricts_apply hname (fieldsOf deployment world index).search hquery
  refine ⟨narrow, hnarrow, ?_, yields_scoped hbackend hname happly fun later hlater => ?_⟩
  · rw [houtcome, hcandidates]
    exact search_ofOutcome_ne_nil hsome outcome
  · rw [← hlater]
    exact (Store.performs_search hbackend index _).yields

/-- A page of a search in a space is a page of the documents that the query finds and that name the
space in the space fields. -/
theorem page_of_searchWithin {page : Page} {later : World}
    (hrun : (searchWithin index name asked).runOn deployment world = (.ok page, later)) :
    Memory.pageOf asked (matching world.memory index (fieldsOf deployment world index).search name
      asked.query) = .ok page := by
  obtain ⟨narrow, hnarrow, hfields, hyields⟩ :=
    exists_searchWithin index hbackend hcandidates hsome hname hstemming hquery
  have hpage : world.memory.search index { asked with query := narrow } = .ok page :=
    hyields.of_ok (by rw [hrun])
  cases hfound : world.memory.found index narrow with
  | error fault =>
    rw [Memory.search, hfound] at hpage
    cases hpage
  | ok matched =>
    rw [Memory.search_of_found hfound, found_narrow hnarrow hfields hfound] at hpage
    exact hpage

/-- Every hit of a search in a space shows a document that the query finds and that has the name in
some candidate. -/
theorem exists_of_searchWithin {page : Page} {later : World}
    (hrun : (searchWithin index name asked).runOn deployment world = (.ok page, later)) {hit : Hit}
    (hhit : hit ∈ page.hits) :
    ∃ body, (hit.id, body) ∈ world.memory.documents index ∧
      Query.projected asked.source body = .ok hit.source ∧
        Query.finds ⟨world.memory.mapping index, hit.id, body⟩ asked.query = true ∧
          ∃ field ∈ candidates,
            Scope.holdsAt (world.memory.mapping index) name body field = true := by
  have hpage := page_of_searchWithin hbackend hcandidates hsome hname hstemming hquery hrun
  obtain ⟨entry, hentry, hid, hsource⟩ := Memory.exists_of_mem_hits hpage hhit
  obtain ⟨hmem, hmatches⟩ := List.mem_filter.mp hentry
  obtain ⟨hfinds, hnamed⟩ := Bool.and_eq_true_iff.mp hmatches
  obtain ⟨field, hfield, hholds⟩ := List.any_eq_true.mp hnamed
  obtain ⟨outcome, houtcome⟩ := hstemming.fieldsOf index
  rw [houtcome, hcandidates] at hfield
  rw [hid]
  exact ⟨entry.2, hmem, hsource, hfinds, field, mem_search_ofOutcome hfield,
    (Bool.and_eq_true_iff.mp hholds).2⟩

/-- A search in a space: whatever a probe of the index has told, every hit shows a document that the
query finds and that has the name in some candidate. If the probe told what the mapping does, or
failed, the search finds the documents that the query finds and that have the name in a candidate
that can be searched, and a query whose clauses are well-formed has a page of them. -/
theorem searchWithin_exact :
    (∀ page later, (searchWithin index name asked).runOn deployment world = (.ok page, later) →
      ∀ hit ∈ page.hits, ∃ body, (hit.id, body) ∈ world.memory.documents index ∧
        Query.projected asked.source body = .ok hit.source ∧
          Query.finds ⟨world.memory.mapping index, hit.id, body⟩ asked.query = true ∧
            ∃ field ∈ candidates,
              Scope.holdsAt (world.memory.mapping index) name body field = true) ∧
    ∀ outcome, fieldsOf deployment world index = ofOutcome candidates outcome →
      (outcome = world.memory.fieldCapabilities index candidates ∨
        ∃ fault, outcome = .error fault) →
        (∀ page later, (searchWithin index name asked).runOn deployment world = (.ok page, later) →
          Memory.Shows asked (matching world.memory index candidates name asked.query) page) ∧
        (Query.Given Query.Formed asked.query →
          (searchWithin index name asked).Yields deployment world
            (Memory.pageOf asked (matching world.memory index candidates name asked.query))) := by
  refine ⟨fun page later hrun hit hhit => ?_, fun outcome houtcome htold => ?_⟩
  · exact exists_of_searchWithin hbackend hcandidates hsome hname hstemming hquery hrun hhit
  · have hfaithful : Scope.Faithful candidates (world.memory.mappings.get? index)
        (fieldsOf deployment world index).search := by
      rw [houtcome]
      exact faithful_ofOutcome htold
    have hsame : matching world.memory index (fieldsOf deployment world index).search name
        asked.query = matching world.memory index candidates name asked.query := by
      rw [matching, matching]
      congr 1
      funext entry
      rw [Memory.mapping, hfaithful.namedIn]
    refine ⟨fun page later hrun => ?_, fun hformed => ?_⟩
    · have hpage := page_of_searchWithin hbackend hcandidates hsome hname hstemming hquery hrun
      rw [hsame] at hpage
      exact Memory.shows_of_pageOf hpage
    · obtain ⟨narrow, hnarrow, hfields, hyields⟩ :=
        exists_searchWithin index hbackend hcandidates hsome hname hstemming hquery
      have hanswers : ∀ entry ∈ world.memory.documents index,
          Query.Answers ⟨world.memory.mapping index, entry.1, entry.2⟩ asked.query :=
        fun entry _ => hformed.answers _
      have hfound := found_narrow_of_answers hnarrow hfields hanswers
      rw [hsame] at hfound
      rwa [Memory.search_of_found hfound] at hyields

end

/-- A store with three decoders: two in `draft`, one of which is named `ssh`, and one of that name
in `test`. -/
def namedDecoders : World :=
  { memory :=
      { mappings := [(".cti-decoders", Memory.defaultMapping)]
        indexes :=
          [(".cti-decoders",
            [("a", body "draft" "ssh"), ("b", body "draft" "dns"), ("c", body "test" "ssh")])] } }
where
  body (space name : String) : Table Json :=
    [("space", .object [("name", .text space)]), ("document", .object [("name", .text name)])]

/-- A search for the decoders that are named `ssh`, as one of the queries that should find them. -/
def sshSearch : Search :=
  { query := .object [("bool", .object
      [("should", .list
        [Scope.term "document.name" "ssh", Scope.terms "document.id" ["x", "y"]])])] }

theorem given_sshSearch : Query.Given Query.Formed sshSearch.query := by
  refine .inr (.compound rfl rfl rfl (.compound fun value hvalue => ?_) fun query hquery => ?_)
  · cases hvalue
  · simp only [List.nil_append, List.mem_cons, List.not_mem_nil, or_false] at hquery
    rcases hquery with rfl | rfl
    · exact .simple (by decide) (.term _ _)
    · exact .simple (by decide) (.terms _ _)

/-- In `draft` the search finds one of the three decoders. -/
theorem searchWithin_exact_namedDecoders :
    ((searchWithin ".cti-decoders" "draft" sshSearch).runOn {} namedDecoders).1 =
      .ok ⟨1, [⟨"a", namedDecoders.body "draft" "ssh"⟩]⟩ := by
  have hstemming : Stemming {} namedDecoders := by
    intro index fields hkept
    cases hkept
  have hquery : Query.Given (fun _ _ => True) sshSearch.query :=
    given_sshSearch.mono fun _ _ _ => trivial
  have htold : probed {} namedDecoders ".cti-decoders" =
      namedDecoders.memory.fieldCapabilities ".cti-decoders"
        ({} : ContentSettings).spaceFieldCandidates := rfl
  obtain ⟨-, hexact⟩ := @searchWithin_exact {} namedDecoders ".cti-decoders" "draft" sshSearch _ rfl
    rfl (by decide) (by decide) hstemming hquery
  have hyields := (hexact _ rfl (.inl htold)).2 given_sshSearch
  rw [hyields.eq rfl]
  decide +kernel

end Resolver

end Lifecycle
