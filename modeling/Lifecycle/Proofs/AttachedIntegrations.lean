import Lifecycle.Proofs.Candidates

/-!
# Integrations attached to policies

A search for policies shows them with the integrations that they name. The ids that the policies of
a page name are looked for together, in one scan of the space, and what is found is handed out again
under the ids. What is wanted of the integrations can be any paths; the id is read with them, so
that every integration can be told by it (`Policies.at?_integrationView`).

Under each id the last integration of the space counts that has it
(`Policies.entryOf?_keyedEntries`), and looking for more ids at once does not change which one that
is (`Policies.filter_asked`). Integrations with the empty id count as having none. From this follows
the main statement (`Policies.integrations_attached`).
-/

namespace Lifecycle

/-! ### What is shown of an integration -/

namespace Policies

/-- The paths that are read of integrations: those that are wanted, and always that of the id. -/
def readPaths (wanted : List String) : List String :=
  if wanted.contains "document.id" then wanted else wanted ++ ["document.id"]

theorem mem_readPaths (wanted : List String) : "document.id" ∈ readPaths wanted := by
  rw [readPaths]
  split_ifs with h
  · exact List.contains_iff_mem.mp h
  · exact List.mem_append_right _ (List.mem_singleton_self _)

/-- What is read of the body of an integration: all of it, or what is at the paths. -/
def integrationView (paths : Option (List String)) (body : Table Json) : Table Json :=
  match paths with
  | none => body
  | some wanted => Query.partsAt body (readPaths wanted)

theorem projected_integrationSource (paths : Option (List String)) (body : Table Json) :
    Query.projected (integrationSource paths) body = .ok (integrationView paths body) := by
  cases paths with
  | none => rfl
  | some wanted => exact Query.projected_texts (readPaths wanted) body

/-- The id of a document is read with it, whatever is wanted. -/
theorem at?_integrationView (paths : Option (List String)) (body : Table Json) :
    Query.at? (.object (integrationView paths body)) ["document", "id"] =
      Query.at? (.object body) ["document", "id"] := by
  cases paths with
  | none => rfl
  | some wanted =>
    have hpath : Text.split '.' "document.id" = ["document", "id"] := by decide
    rw [integrationView, ← hpath]
    exact Query.at?_partsAt (mem_readPaths wanted)

end Policies

/-! ### Integrations of contents -/

/-- A body can be shown with its storage id: its keys are distinct, and none of them is the one that
the storage id is put under. -/
structure Content.Showable (body : Table Json) : Prop where
  distinct : body.Distinct
  unlabelled : body.get? "_id" = none

namespace Memory

/-- The integrations of a space that have an id, in the order of the index. -/
def integrationsWith (memory : Memory) (space : Space) (id : String) : List Query.Entry :=
  (memory.entities .integrations).filter fun entry => Scope.belongs space entry.2 &&
    Query.at? (.object entry.2) ["document", "id"] = some (.text id)

end Memory

namespace Policies

variable {memory : Memory} {space : Space} {paths : Option (List String)}

/-- An integration as it is attached: its storage id, and what is read of its body. -/
def shownEntry (paths : Option (List String)) (entry : Query.Entry) : Table Json :=
  ("_id", .text entry.1) :: integrationView paths entry.2

theorem integrationEntry_eq {entry : Query.Entry} (h : Content.Showable entry.2) :
    integrationEntry (Store.toHit (integrationView paths) entry) = shownEntry paths entry := by
  have hview : (integrationView paths entry.2).Distinct ∧
      (integrationView paths entry.2).get? "_id" = none := by
    cases paths with
    | none => exact ⟨h.distinct, h.unlabelled⟩
    | some wanted =>
      exact ⟨Query.distinct_partsAt _ _, Query.get?_partsAt_eq_none h.unlabelled _⟩
  refine Table.putAll_eq_append (t := [("_id", Json.text entry.1)]) ?_
  rw [Table.get?_eq_none_iff] at hview
  exact List.nodup_cons.mpr ⟨hview.2, hview.1⟩

/-! ### Entries by id -/

theorem addIntegration_eq {entry : Query.Entry} {id : String}
    (hid : Query.at? (.object entry.2) ["document", "id"] = some (.text id))
    (hshowable : Content.Showable entry.2) (before : List (Json × Table Json)) :
    addIntegration before (Store.toHit (integrationView paths) entry) =
      .ok (before ++ if id = "" then [] else [(.text id, shownEntry paths entry)]) := by
  have hgiven : Content.entityId? (Store.toHit (integrationView paths) entry).source =
      .ok (Json.text id).given? :=
    Content.entityId?_of_at? ((at?_integrationView _ _).trans hid)
  rw [addIntegration, hgiven, integrationEntry_eq hshowable]
  by_cases hempty : id = ""
  · rw [if_pos hempty, List.append_nil, hempty]
    rfl
  · have hsome : (Json.text id).given? = some (.text id) := by
      simp [Json.given?, Json.truthy, hempty]
    rw [if_neg hempty, hsome]
    rfl

/-- The entries of some integrations: those that do not have the empty id, under their ids. -/
def keyedEntries (paths : Option (List String)) (entries : List Query.Entry) :
    List (Json × Table Json) :=
  entries.filterMap fun entry =>
    match Query.at? (.object entry.2) ["document", "id"] with
    | some (.text id) => if id = "" then none else some (.text id, shownEntry paths entry)
    | _ => none

theorem foldlM_addIntegration {entries : List Query.Entry}
    (hids : ∀ entry ∈ entries,
      ∃ id, Query.at? (.object entry.2) ["document", "id"] = some (.text id))
    (hshowable : ∀ entry ∈ entries, Content.Showable entry.2)
    (before : List (Json × Table Json)) :
    (entries.map (Store.toHit (integrationView paths))).foldlM addIntegration before =
      .ok (before ++ keyedEntries paths entries) := by
  induction entries generalizing before with
  | nil => simp [keyedEntries, pure, Except.pure]
  | cons entry rest ih =>
    obtain ⟨id, hid⟩ := hids entry List.mem_cons_self
    have hrest := ih (fun other hother => hids other (List.mem_cons_of_mem _ hother))
      (fun other hother => hshowable other (List.mem_cons_of_mem _ hother))
      (before ++ if id = "" then [] else [(.text id, shownEntry paths entry)])
    rw [List.map_cons, List.foldlM_cons,
      addIntegration_eq hid (hshowable entry List.mem_cons_self) before]
    refine hrest.trans ?_
    rw [List.append_assoc, keyedEntries, keyedEntries, List.filterMap_cons, hid]
    by_cases hempty : id = "" <;> simp [hempty]

/-- Of the entries under an id that is not empty, the last one counts. -/
theorem entryOf?_keyedEntries {id : String} (hid : id ≠ "") (entries : List Query.Entry) :
    entryOf? (keyedEntries paths entries) id =
      ((entries.filter fun entry =>
        Query.at? (.object entry.2) ["document", "id"] = some (.text id)).getLast?).map
          (shownEntry paths) := by
  have hfilter : (keyedEntries paths entries).filter (fun entry => entry.1 == .text id) =
      (entries.filter fun entry =>
        Query.at? (.object entry.2) ["document", "id"] = some (.text id)).map
          fun entry => (.text id, shownEntry paths entry) := by
    induction entries with
    | nil => rfl
    | cons entry rest ih =>
      rw [keyedEntries] at ih ⊢
      rw [List.filterMap_cons]
      cases hvalue : Query.at? (.object entry.2) ["document", "id"] with
      | none => simp [hvalue, ih]
      | some value =>
        cases value with
        | text found =>
          by_cases hempty : found = ""
          · simp [hvalue, ih, hempty, Ne.symm hid]
          · by_cases hsame : found = id <;> simp [hvalue, ih, hempty, hsame, hid]
        | _ => simp [hvalue, ih]
  rw [entryOf?, ← List.head?_filter, List.filter_reverse, List.head?_reverse, hfilter,
    List.getLast?_map, Option.map_map]
  rfl

theorem entryOf?_keyedEntries_empty (entries : List Query.Entry) :
    entryOf? (keyedEntries paths entries) "" = none := by
  rw [entryOf?, Option.map_eq_none_iff, List.find?_eq_none]
  intro keyed hkeyed
  rw [List.mem_reverse, keyedEntries, List.mem_filterMap] at hkeyed
  obtain ⟨entry, -, hentry⟩ := hkeyed
  split at hentry
  · split_ifs at hentry with hempty
    cases hentry
    simpa using hempty
  · cases hentry

/-! ### The scan -/

/-- What is attached to a policy under an id: the last integration of the space that has it, or
nothing. Under the empty id there is nothing. -/
def attachedEntry (memory : Memory) (space : Space) (paths : Option (List String)) (id : String) :
    Table Json :=
  if id = "" then []
  else (((memory.integrationsWith space id).getLast?).map (shownEntry paths)).getD []

/-- Integrations that are looked for by their ids are found by each of them. -/
theorem filter_asked {ids : List String} {id : String} (hid : id ∈ ids) :
    ((memory.entities .integrations).filter fun entry =>
        Scope.belongs space entry.2 && Scope.hasIdAmong ids entry.2).filter (fun entry =>
      Query.at? (.object entry.2) ["document", "id"] = some (.text id)) =
      memory.integrationsWith space id := by
  rw [List.filter_filter, Memory.integrationsWith]
  refine List.filter_congr fun entry _ => ?_
  by_cases hfound : Query.at? (.object entry.2) ["document", "id"] = some (.text id)
  · have hasked : Scope.hasIdAmong ids entry.2 = true := by
      rw [Scope.hasIdAmong, hfound, Option.any_some, List.any_eq_true]
      exact ⟨id, hid, beq_self_eq_true id⟩
    rw [hasked, Bool.and_true, decide_eq_true hfound, Bool.true_and, Bool.and_true]
  · rw [decide_eq_false hfound, Bool.false_and, Bool.and_false]

variable {deployment : Deployment} {world : World}

/-- A scan for the integrations with some ids goes through those of the space. -/
theorem performs_integrations_scan (h : deployment.Standard) (hworld : world.Standing)
    (space : Space) {ids : List String} (hsome : ids ≠ []) (paths : Option (List String)) :
    (integrationEntries space ids paths).Performs deployment world []
      ((((world.memory.entities .integrations).filter fun entry =>
        Scope.belongs space entry.2 && Scope.hasIdAmong (distinct ids) entry.2).map
          (Store.toHit (integrationView paths))).foldlM addIntegration []) := by
  have hindex : deployment.settings.integrationsIndex = ".cti-integrations" :=
    h.indexFor .integrations
  have hids : (distinct ids).isEmpty = false := by
    obtain ⟨id, hid⟩ := List.exists_mem_of_ne_nil ids hsome
    rw [List.isEmpty_eq_false_iff]
    exact List.ne_nil_of_mem (mem_distinct.mpr hid)
  have hmapping : world.memory.mapping ".cti-integrations" = Memory.defaultMapping :=
    hworld.mapped.mapping (by decide)
  rw [integrationEntries]
  dsimp only
  rw [if_neg (ne_true_of_eq_false hids)]
  refine Resolver.performs_scoped_scan h hworld.probed hindex (by decide) space
    (Scope.apply_terms space (distinct ids)) (fun fields hfields => ?_)
    (projected_integrationSource paths) [] addIntegration
  have hfound := Memory.found_withIds hfields space (distinct ids)
  simpa only [Memory.asked_eq hmapping] using hfound

/-- What the scan gives under each of the ids is what is attached under it. -/
theorem performs_integrationEntries (h : deployment.Standard) (hworld : world.Standing)
    (hids : world.memory.TextIdsOf .integrations)
    (hshowable : ∀ entry ∈ world.memory.entities .integrations, Content.Showable entry.2)
    (space : Space) (ids : List String) (paths : Option (List String)) :
    ∃ entries, (integrationEntries space ids paths).Performs deployment world [] (.ok entries) ∧
      ∀ id ∈ ids, (entryOf? entries id).getD [] = attachedEntry world.memory space paths id := by
  by_cases hsome : ids = []
  · subst hsome
    exact ⟨[], Work.performs_pure [], fun id hid => by cases hid⟩
  have hscan := performs_integrations_scan h hworld space hsome paths
  rw [foldlM_addIntegration (fun entry hentry => hids entry (List.mem_of_mem_filter hentry))
    (fun entry hentry => hshowable entry (List.mem_of_mem_filter hentry)), List.nil_append] at hscan
  refine ⟨_, hscan, fun id hid => ?_⟩
  rw [attachedEntry]
  split_ifs with hempty
  · rw [hempty, entryOf?_keyedEntries_empty]
    rfl
  · rw [entryOf?_keyedEntries hempty, filter_asked (mem_distinct.mpr hid)]

theorem get?_attached {entries : List (Json × Table Json)} {document : Policy} {id : String}
    (hid : id ∈ document.integrations) :
    (attached entries document).get? id = some ((entryOf? entries id).getD []) := by
  have hlookup := Table.get?_ofEntries_filterMap
    (fun id => some ((entryOf? entries id).getD [])) hid
  rwa [show (fun id => (some ((entryOf? entries id).getD [])).map fun entry => (id, entry)) =
    some ∘ fun id => (id, (entryOf? entries id).getD []) from rfl, List.filterMap_eq_map] at hlookup

theorem has_attached (entries : List (Json × Table Json)) (document : Policy) (id : String) :
    (attached entries document).has id = true ↔ id ∈ document.integrations := by
  constructor
  · intro hhas
    rw [Table.has, attached, Table.get?_ofEntries, Option.isSome_map, List.find?_isSome] at hhas
    obtain ⟨keyed, hkeyed, hkey⟩ := hhas
    obtain ⟨other, hother, rfl⟩ := List.mem_map.mp (List.mem_reverse.mp hkeyed)
    rwa [← beq_iff_eq.mp hkey]
  · intro hid
    rw [Table.has, get?_attached hid]
    rfl

/-! ### Pages of policies -/

/-- The policies that a search finds, without their integrations. -/
def foundPolicies (space : Space) (asked : Search) : Work PolicyPage := do
  let index := (← Work.settings).policiesIndex
  let query ← Resolver.within index space asked.query
  let page ← Store.search index { asked with query, source := searchSource }
  let records ← Work.ofExcept (page.hits.mapM (toRecord space))
  pure ⟨page.total, records⟩

/-- A page of policies with the integrations they name. -/
def withIntegrations (space : Space) (paths : Option (List String)) (page : PolicyPage) :
    Work PolicyPage := do
  let ids := page.items.flatMap fun record => record.document.integrations
  let entries ← integrationEntries space ids paths
  pure ⟨page.total, page.items.map fun record =>
    { record with integrationsMap := attached entries record.document }⟩

theorem search_eq (space : Space) (asked : Search) (paths : Option (List String)) :
    search space asked paths = foundPolicies space asked >>= withIntegrations space paths := by
  simp [search, foundPolicies, withIntegrations, bind_assoc]

theorem reads_foundPolicies (h : deployment.Standard) (space : Space) (asked : Search) :
    (foundPolicies space asked).Reads deployment := by
  rw [foundPolicies]
  refine Work.reads_settings.bind fun settings => ?_
  refine (Resolver.reads_within h _ space _).bind fun query => ?_
  refine (Store.reads_search h _ _).bind fun page => ?_
  exact (Work.reads_ofExcept _).bind fun records => Work.reads_pure _

/-- An entry shows an integration: under its storage id, with all of its body or with what that has
at the wanted paths, and always with its id. -/
structure ShowsIntegration (paths : Option (List String)) (integration : Query.Entry)
    (entry : Table Json) : Prop where
  whole : paths = none → entry = ("_id", .text integration.1) :: integration.2
  parts : ∀ wanted, paths = some wanted → ∃ view,
    entry = ("_id", .text integration.1) :: view ∧
      Query.Projects ((readPaths wanted).map (Text.split '.')) integration.2 view
  id : Query.at? (.object entry) ["document", "id"] =
    Query.at? (.object integration.2) ["document", "id"]

theorem showsIntegration_shownEntry (paths : Option (List String)) (integration : Query.Entry) :
    ShowsIntegration paths integration (shownEntry paths integration) where
  whole hwhole := by rw [hwhole]; rfl
  parts wanted hwanted := ⟨_, rfl, by rw [hwanted]; exact Query.projects_partsAt _ _⟩
  id := by
    have hview : Query.at? (.object (shownEntry paths integration)) ["document", "id"] =
        Query.at? (.object (integrationView paths integration.2)) ["document", "id"] := by
      rw [shownEntry, Query.at?_cons, Query.at?_cons]
      rfl
    exact hview.trans (at?_integrationView paths integration.2)

/-- A policy comes with an entry for each integration that it names. An entry shows the last
integration of the space that has the id, and is empty exactly if there is none or the id is empty.
-/
structure Attached (memory : Memory) (space : Space) (paths : Option (List String))
    (record : PolicyRecord) : Prop where
  keys : ∀ id, record.integrationsMap.has id = true ↔ id ∈ record.document.integrations
  entries : ∀ id ∈ record.document.integrations, ∃ entry,
    record.integrationsMap.get? id = some entry ∧
      (entry = [] ↔ id = "" ∨ memory.integrationsWith space id = []) ∧
        (id ≠ "" → ∀ integration ∈ (memory.integrationsWith space id).getLast?,
          ShowsIntegration paths integration entry)

theorem attached_of_entries {record : PolicyRecord} {entries : List (Json × Table Json)}
    (hentries : ∀ id ∈ record.document.integrations,
      (entryOf? entries id).getD [] = attachedEntry memory space paths id) :
    Attached memory space paths
      { record with integrationsMap := attached entries record.document } where
  keys := has_attached entries record.document
  entries id hid := by
    refine ⟨_, get?_attached hid, ?_, ?_⟩
    · rw [hentries id hid, attachedEntry]
      split_ifs with hempty
      · simp [hempty]
      · cases hlast : (memory.integrationsWith space id).getLast? with
        | none => simp [List.getLast?_eq_none_iff.mp hlast]
        | some integration =>
          have hsome : memory.integrationsWith space id ≠ [] := by
            intro hnil
            rw [hnil] at hlast
            cases hlast
          simp [hempty, hsome, shownEntry]
    · intro hsome integration hlast
      rw [hentries id hid, attachedEntry, if_neg hsome, hlast]
      exact showsIntegration_shownEntry paths integration

/-- What becomes of a page of policies when their integrations are looked up: each comes with those
that it names, and is the one that was found in everything else. -/
structure Completed (memory : Memory) (space : Space) (paths : Option (List String))
    (page shown : PolicyPage) : Prop where
  total : shown.total = page.total
  items : (shown.items.map fun record => { record with integrationsMap := [] }) =
    page.items.map fun record => { record with integrationsMap := [] }
  attached : ∀ record ∈ shown.items, Attached memory space paths record

theorem performs_withIntegrations (h : deployment.Standard) (hworld : world.Standing)
    (hids : world.memory.TextIdsOf .integrations)
    (hshowable : ∀ entry ∈ world.memory.entities .integrations, Content.Showable entry.2)
    (space : Space) (paths : Option (List String)) (page : PolicyPage) :
    ∃ shown, (withIntegrations space paths page).Performs deployment world [] (.ok shown) ∧
      Completed world.memory space paths page shown := by
  obtain ⟨entries, hentries, hlookups⟩ := performs_integrationEntries h hworld hids hshowable space
    (page.items.flatMap fun record => record.document.integrations) paths
  refine ⟨_, hentries.read_bind fun later _ => Work.performs_pure _, rfl, ?_, ?_⟩
  · rw [List.map_map]
    rfl
  · intro shown hshown
    obtain ⟨record, hrecord, rfl⟩ := List.mem_map.mp hshown
    exact attached_of_entries fun id hid =>
      hlookups id (List.mem_flatMap.mpr ⟨record, hrecord, hid⟩)

/-- Every policy that a search shows comes with the integrations that it names, whatever the search
was, whatever is to be read of them and whatever else is on the page. Looking them up ends in no
fault of its own. -/
theorem integrations_attached (h : deployment.Standard) (hworld : world.Standing)
    (hids : world.memory.TextIdsOf .integrations)
    (hshowable : ∀ entry ∈ world.memory.entities .integrations, Content.Showable entry.2)
    (space : Space) (asked : Search) (paths : Option (List String)) :
    (∀ page later, (search space asked paths).runOn deployment world = (.ok page, later) →
      ∀ record ∈ page.items, Attached world.memory space paths record) ∧
    (world.rules = [] →
      match (foundPolicies space asked).runOn deployment world with
      | (.error fault, _) => ((search space asked paths).runOn deployment world).1 = .error fault
      | (.ok page, _) => ∃ shown later,
        (search space asked paths).runOn deployment world = (.ok shown, later) ∧
          Completed world.memory space paths page shown) := by
  have hreads := reads_foundPolicies h space asked world
  rw [search_eq, Work.runOn_bind]
  rcases hfound : (foundPolicies space asked).runOn deployment world with ⟨fault | page, middle⟩
  · refine ⟨fun page later hrun => ?_, fun _ => rfl⟩
    cases hrun
  · rw [hfound] at hreads
    -- the integrations are looked up in the documents that the page was found in
    have hmemory : middle.memory = world.memory := hreads.memory_eq
    rw [← hmemory] at hids hshowable ⊢
    obtain ⟨shown, hperforms, hcompleted⟩ :=
      performs_withIntegrations h (hworld.after hreads) hids hshowable space paths page
    refine ⟨fun last later hrun record hrecord => ?_, fun hrules => ?_⟩
    · obtain rfl := Except.ok.inj (hperforms.of_ok hrun).1
      exact hcompleted.attached record hrecord
    · obtain ⟨later, hrun, -⟩ := hperforms.run_eq (hreads.rules hrules)
      exact ⟨shown, later, hrun, hcompleted⟩

/-- A store with a policy of `draft` that names four integrations. One has the empty id; of the
others, one is stored twice in `draft`, one in `test`, and one nowhere. -/
def namedIntegrations : World :=
  { memory :=
      { mappings := contentIndexes.map fun index => (index, Memory.defaultMapping)
        indexes :=
          [(".cti-policies",
            [("p", body "draft" [("integrations", Json.texts ["x", "y", "z", ""])])]),
           (".cti-integrations",
            [("a", body "draft" [("id", .text "x"), ("title", .text "ssh")]),
             ("b", body "draft" [("id", .text "x"), ("title", .text "dns"), ("on", .bool true)]),
             ("c", body "test" [("id", .text "y")]),
             ("d", body "draft" [("id", .text "")])])] } }
where
  body (space : String) (fields : Table Json) : Table Json :=
    [("space", .object [("name", .text space)]), ("document", .object fields)]

theorem namedIntegrations_textIds : namedIntegrations.memory.TextIdsOf .integrations :=
  Memory.textIdsOf_of_isSome (by decide +kernel)

theorem namedIntegrations_showable :
    ∀ entry ∈ namedIntegrations.memory.entities .integrations, Content.Showable entry.2 := by
  have hbodies : ∀ entry ∈ namedIntegrations.memory.entities .integrations,
      entry.2.Distinct ∧ entry.2.get? "_id" = none := by decide +kernel
  exact fun entry hentry => ⟨(hbodies entry hentry).1, (hbodies entry hentry).2⟩

/-- The policy of the store, with some integrations attached. -/
def namingPolicy (entries : Table (Table Json)) : PolicyRecord :=
  { docId := "p"
    space := .draft
    document := { integrations := ["x", "y", "z", ""] }
    source :=
      [("document", .object [("integrations", Json.texts ["x", "y", "z", ""])]),
       ("space", .object [("name", .text "draft")])]
    integrationsMap := entries }

theorem integrations_attached_namedIntegrations :
    ∃ page later, (search .draft {} (some ["document.title"])).runOn {} namedIntegrations =
        (.ok page, later) ∧
      page.items = [namingPolicy
        [("x", [("_id", .text "b"),
          ("document", .object [("title", .text "dns"), ("id", .text "x")])]),
         ("y", []), ("z", []), ("", [])]] ∧
      ∀ record ∈ page.items,
        Attached namedIntegrations.memory .draft (some ["document.title"]) record := by
  have hpage : ((search .draft {} (some ["document.title"])).runOn {} namedIntegrations).1 =
      .ok ⟨1, [namingPolicy
        [("x", [("_id", .text "b"),
          ("document", .object [("title", .text "dns"), ("id", .text "x")])]),
         ("y", []), ("z", []), ("", [])]]⟩ := by decide +kernel
  obtain ⟨hattached, -⟩ := @integrations_attached {} namedIntegrations Deployment.standard_default
    ⟨by decide +kernel, fun _ _ _ hkept => by cases hkept⟩ namedIntegrations_textIds
    namedIntegrations_showable .draft {} (some ["document.title"])
  rcases hrun : (search .draft {} (some ["document.title"])).runOn {} namedIntegrations with
    ⟨outcome, later⟩
  rw [hrun] at hpage
  obtain rfl : outcome = _ := hpage
  exact ⟨_, later, rfl, rfl, hattached _ later hrun⟩

/-- An integration that has the empty id is not attached under it. -/
theorem emptyId_not_attached :
    (namedIntegrations.memory.TextIdsOf .integrations ∧
      ∀ entry ∈ namedIntegrations.memory.entities .integrations, Content.Showable entry.2) ∧
    (∃ page later, (search .draft {} none).runOn {} namedIntegrations = (.ok page, later) ∧
      ∃ record ∈ page.items, "" ∈ record.document.integrations ∧
        record.integrationsMap.get? "" = some []) ∧
    namedIntegrations.memory.integrationsWith .draft "" =
      [("d", namedIntegrations.body "draft" [("id", .text "")])] := by
  have hpage : ((search .draft {} none).runOn {} namedIntegrations).1 =
      .ok ⟨1, [namingPolicy
        [("x", ("_id", .text "b") :: namedIntegrations.body "draft"
          [("id", .text "x"), ("title", .text "dns"), ("on", .bool true)]),
         ("y", []), ("z", []), ("", [])]]⟩ := by decide +kernel
  rcases hrun : (search .draft {} none).runOn {} namedIntegrations with ⟨outcome, later⟩
  rw [hrun] at hpage
  obtain rfl : outcome = _ := hpage
  exact ⟨⟨namedIntegrations_textIds, namedIntegrations_showable⟩,
    ⟨_, later, rfl, _, List.mem_singleton_self _, by decide, rfl⟩, by decide +kernel⟩

end Policies

end Lifecycle
