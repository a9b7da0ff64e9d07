import Lifecycle.Proofs.Names

/-!
# Integrations that refer to an entity

The catalog shows an entity with the titles of the integrations that refer to it. The titles are
looked up for a page at a time, by a scan for the integrations of the space that refer to any entity
of the page, and are gathered in a table by id. What stands in it under an id is told by the
contents alone (`Memory.referring`): of each integration of the space its title, as often as its
list has the id.

An integration adds to the table under an id as often as its list has the id
(`Catalog.addTitles_eq`), so that the table after a scan is told by its lookups
(`Catalog.foldlM_addTitles`), and an integration that the scan does not find would add nothing
(`Memory.TextReferences.flatMap_mentions`). From this follows the main statement
(`Catalog.references`).
-/

namespace Lifecycle

/-! ### References in contents -/

namespace Content

/-- The texts in the list that a body has for a type of entities. -/
def referencesIn (type : EntityType) (body : Table Json) : List String :=
  match Query.at? (.object body) ["document", type.name] with
  | some (.list items) => items.filterMap Json.text?
  | _ => []

/-- The title of a stored document, or its storage id if it has none or an empty one. -/
def titleOf (entry : Query.Entry) : String :=
  match Query.at? (.object entry.2) ["document", "title"] with
  | some (.text title) => if title = "" then entry.1 else title
  | _ => entry.1

end Content

namespace Memory

/-- Integrations have texts as their titles, and lists of texts of what they refer to. Either may be
missing. -/
def TextReferences (memory : Memory) : Prop :=
  ∀ entry ∈ memory.entities .integrations,
    (∀ value, Query.at? (.object entry.2) ["document", "title"] = some value →
      ∃ title, value = .text title) ∧
    ∀ type ≠ EntityType.integrations, ∀ value,
      Query.at? (.object entry.2) ["document", type.name] = some value →
        ∃ ids, value = Json.texts ids

/-- The titles of the integrations of a space that refer to an entity, in the order of the index, as
often as they do. -/
def referring (memory : Memory) (type : EntityType) (space : Space) (id : String) : List String :=
  (memory.entities .integrations).flatMap fun entry =>
    if Scope.belongs space entry.2 then
      List.replicate ((Content.referencesIn type entry.2).count id) (Content.titleOf entry)
    else []

end Memory

namespace Content

variable {type : EntityType} {body : Table Json}

theorem referencesIn_texts {ids : List String}
    (h : Query.at? (.object body) ["document", type.name] = some (Json.texts ids)) :
    referencesIn type body = ids := by
  simp [referencesIn, h, Json.texts, List.filterMap_map, Function.comp_def, Json.text?]

/-- A body with a list of references to entities of a type. If it has a title, that is a text. -/
structure Refers (type : EntityType) (body : Table Json) : Prop where
  listed : ∃ ids, Query.at? (.object body) ["document", type.name] = some (Json.texts ids)
  titled : ∀ value, Query.at? (.object body) ["document", "title"] = some value →
    ∃ title, value = .text title

/-- What a scan for references shows of a body. -/
def referenceView (type : EntityType) (body : Table Json) : Table Json :=
  Query.partsAt body ["document.title", "document." ++ type.name]

theorem projected_references (type : EntityType) (body : Table Json) :
    Query.projected (Json.texts ["document.title", "document." ++ type.name]) body =
      .ok (referenceView type body) := rfl

/-- An integration that has a list is shown with it, and with its title. -/
theorem documentFields_referenceView {ids : List String}
    (h : Query.at? (.object body) ["document", type.name] = some (Json.texts ids)) :
    ∃ fields, documentFields (referenceView type body) = .ok fields ∧
      Json.under fields type.name = Json.texts ids ∧
        Json.under fields "title" =
          (Query.at? (.object body) ["document", "title"]).getD .null := by
  obtain ⟨fields, hdocument, hlist⟩ := exists_document_of_at? h
  have hpath : Text.split '.' ("document." ++ type.name) = ["document", type.name] := by
    cases type <;> decide
  have hkey : "title" ≠ type.name := by cases type <;> decide
  have htitlePath : Text.split '.' "document.title" = ["document", "title"] := by decide
  have hview := partsAt_document htitlePath hpath hkey hdocument (by simp [hlist])
  have htitle : Query.at? (.object body) ["document", "title"] = fields.get? "title" := by
    simp only [Query.at?, hdocument]
    cases Table.get? fields "title" <;> rfl
  rw [hlist] at hview
  set shown : Table Json := ((fields.get? "title").toList.map fun value => ("title", value)) ++
    (some (Json.texts ids)).toList.map fun value => (type.name, value) with hshown
  have hshownList : shown.get? type.name = some (Json.texts ids) := by
    rw [hshown]
    cases fields.get? "title" <;> simp [Table.get?, hkey]
  have hshownTitle : shown.get? "title" = fields.get? "title" := by
    rw [hshown]
    cases fields.get? "title" <;> simp [Table.get?, hkey.symm]
  refine ⟨shown, documentFields_of_object (by rw [referenceView, hview]; rfl), ?_, ?_⟩
  · rw [Json.under, hshownList]
    rfl
  · rw [Json.under, hshownTitle, htitle]

end Content

/-- What integrations hold can be checked entry by entry. -/
theorem Memory.textReferences_of_all {memory : Memory}
    (h : ∀ entry ∈ memory.entities .integrations,
      (∀ value ∈ Query.at? (.object entry.2) ["document", "title"], value.text?.isSome) ∧
        ∀ type ∈ EntityType.all, ∀ value ∈ Query.at? (.object entry.2) ["document", type.name],
          type ≠ .integrations → value = Json.texts (Content.referencesIn type entry.2)) :
    memory.TextReferences := by
  intro entry hentry
  obtain ⟨htitle, hlists⟩ := h entry hentry
  refine ⟨fun value hvalue => ?_, fun type htype value hvalue =>
    ⟨_, hlists type type.mem_all value hvalue htype⟩⟩
  have htext := htitle value hvalue
  cases value with
  | text title => exact ⟨title, rfl⟩
  | _ => cases htext

/-! ### Titles by id -/

namespace Catalog

variable {type : EntityType} {wanted : List String}

/-- Behind some references there stands a title more under each wanted id for each that is it. -/
theorem foldlM_addTitle (wanted : List String) (title : Json) (ids : List String)
    (titles : Table (List Json)) :
    ∃ later, (ids.map Json.text).foldlM (addTitle wanted title) titles = .ok later ∧
      ∀ id, (later.get? id).getD [] = (titles.get? id).getD [] ++
        List.replicate ((ids.filter wanted.contains).count id) title := by
  induction ids generalizing titles with
  | nil => exact ⟨titles, rfl, by simp⟩
  | cons first rest ih =>
    rw [List.map_cons, List.foldlM_cons, addTitle]
    cases hwanted : wanted.contains first with
    | false =>
      obtain ⟨later, hlater, hlookups⟩ := ih titles
      refine ⟨later, hlater, fun id => ?_⟩
      rw [hlookups id, List.filter_cons_of_neg (ne_true_of_eq_false hwanted)]
    | true =>
      obtain ⟨later, hlater, hlookups⟩ :=
        ih (titles.put first ((titles.get? first).getD [] ++ [title]))
      refine ⟨later, hlater, fun id => ?_⟩
      rw [hlookups id, List.filter_cons_of_pos hwanted, Table.get?_put]
      by_cases hsame : first = id
      · subst hsame
        rw [if_pos rfl, List.count_cons_self, List.replicate_succ, Option.getD_some,
          List.append_assoc, List.singleton_append]
      · rw [if_neg hsame, List.count_cons_of_ne hsame]

/-- An integration adds its title under a wanted id as often as its list has the id. -/
theorem addTitles_eq {entry : Query.Entry} (h : Content.Refers type entry.2)
    (wanted : List String) (titles : Table (List Json)) :
    ∃ later, addTitles type wanted titles (Store.toHit (Content.referenceView type) entry) =
        .ok later ∧
      ∀ id, (later.get? id).getD [] = (titles.get? id).getD [] ++
        List.replicate (((Content.referencesIn type entry.2).filter wanted.contains).count id)
          (.text (Content.titleOf entry)) := by
  obtain ⟨ids, hids⟩ := h.listed
  obtain ⟨fields, hfields, hlist, hshown⟩ := Content.documentFields_referenceView hids
  have hgiven : ((Json.under fields "title").given?).getD (.text entry.1) =
      .text (Content.titleOf entry) := by
    rw [hshown, Content.titleOf]
    cases hfound : Query.at? (.object entry.2) ["document", "title"] with
    | none => rfl
    | some value =>
      obtain ⟨title, rfl⟩ := h.titled value hfound
      by_cases hempty : title = "" <;> simp [Json.given?, Json.truthy, hempty]
  obtain ⟨later, hlater, hlookups⟩ :=
    foldlM_addTitle wanted (.text (Content.titleOf entry)) ids titles
  rw [Content.referencesIn_texts hids]
  refine ⟨later, ?_, hlookups⟩
  rw [addTitles]
  simp only [Store.toHit, hfields, hlist, bind, Except.bind, hgiven]
  -- a list counts as given or has no items
  cases ids <;> exact hlater

/-- The table behind some integrations, each with a list. -/
theorem foldlM_addTitles {entries : List Query.Entry}
    (hentries : ∀ entry ∈ entries, Content.Refers type entry.2)
    (wanted : List String) (titles : Table (List Json)) :
    ∃ later, (entries.map (Store.toHit (Content.referenceView type))).foldlM
        (addTitles type wanted) titles = .ok later ∧
      ∀ id, (later.get? id).getD [] = (titles.get? id).getD [] ++
        entries.flatMap fun entry => List.replicate
          (((Content.referencesIn type entry.2).filter wanted.contains).count id)
          (.text (Content.titleOf entry)) := by
  induction entries generalizing titles with
  | nil => exact ⟨titles, rfl, by simp⟩
  | cons entry rest ih =>
    obtain ⟨next, hnext, hfirst⟩ := addTitles_eq (hentries entry List.mem_cons_self) wanted titles
    obtain ⟨later, hlater, hrest⟩ :=
      ih (fun other hother => hentries other (List.mem_cons_of_mem _ hother)) next
    refine ⟨later, ?_, fun id => ?_⟩
    · rw [List.map_cons, List.foldlM_cons, hnext]
      exact hlater
    · rw [hrest id, hfirst id, List.flatMap_cons, List.append_assoc]

end Catalog

/-! ### The scan -/

namespace Scope

/-- Whether a body refers to one of some entities of a type. -/
def mentions (type : EntityType) (ids : List String) (body : Table Json) : Bool :=
  (Query.at? (.object body) ["document", type.name]).any fun stored =>
    ids.any fun id => Query.holdsValue stored (.text id)

theorem holds_references {type : EntityType} (ids : List String) (id : String)
    (body : Table Json) (inner : Bool) :
    Query.holds ⟨Memory.defaultMapping, id, body⟩ inner (terms ("document." ++ type.name) ids) =
      .ok (mentions type ids body) := by
  have hsearchable :
      Query.searchable Memory.defaultMapping ("document." ++ type.name) = true := by
    cases type <;> decide
  have hpath : Text.split '.' (Query.readName Memory.defaultMapping ("document." ++ type.name)) =
      ["document", type.name] := by
    cases type <;> decide
  rw [Query.holds_terms, hsearchable, Bool.true_and, Query.valueAt?, hpath]
  rfl

/-- A list of texts has one of some ids if it shares one with them. -/
theorem mentions_texts {type : EntityType} {body : Table Json} {found : List String}
    (h : Query.at? (.object body) ["document", type.name] = some (Json.texts found))
    (ids : List String) : mentions type ids body = ids.any found.contains := by
  have hholds : ∀ id, Query.holdsValue (Json.texts found) (.text id) = found.contains id := by
    intro id
    show (found.map Json.text).any ((Json.text id).same ·) = _
    rw [List.any_map, List.contains_eq_any_beq]
    rfl
  simp only [mentions, h, Option.any_some, hholds]

end Scope

theorem flatMap_filter {α β : Type} (test : α → Bool) (f : α → List β) (items : List α) :
    (items.filter test).flatMap f = items.flatMap fun item => if test item then f item else [] := by
  induction items with
  | nil => rfl
  | cons item rest ih => cases htest : test item <;> simp [htest, ih]

namespace Memory

variable {memory : Memory} {type : EntityType} {space : Space} {ids : List String}

/-- A search for references in a space finds the integrations of the space that have one. -/
theorem found_references {fields : List String}
    (hmapping : memory.mappings.get? ".cti-integrations" = some defaultMapping)
    (hfields : Scope.Probed (some defaultMapping) fields) :
    memory.found ".cti-integrations"
        (Scope.scopedTo space (Scope.terms ("document." ++ type.name) ids) fields) =
      .ok ((memory.entities .integrations).filter fun entry =>
        Scope.belongs space entry.2 && Scope.mentions type ids entry.2) := by
  refine filterM_eq_filter _ _ _ fun entry _ => ?_
  rw [mapping, hmapping]
  exact (Scope.holds_scopedTo hfields space (Scope.holds_references ids entry.1 entry.2 true)).trans
    (by rw [Option.getD_some, Scope.carries_default])

/-- An integration that is found has a list. -/
theorem TextReferences.refers (h : memory.TextReferences) (htype : type ≠ .integrations)
    {entry : Query.Entry} (hentry : entry ∈ memory.entities .integrations)
    (hmentions : Scope.mentions type ids entry.2 = true) : Content.Refers type entry.2 := by
  obtain ⟨htitle, hlists⟩ := h entry hentry
  refine ⟨?_, htitle⟩
  cases hvalue : Query.at? (.object entry.2) ["document", type.name] with
  | none => simp [Scope.mentions, hvalue] at hmentions
  | some value =>
    obtain ⟨found, rfl⟩ := hlists type htype value hvalue
    exact ⟨found, rfl⟩

/-- An integration that is not found would add nothing. -/
theorem TextReferences.count_eq_zero (h : memory.TextReferences)
    (htype : type ≠ .integrations) {entry : Query.Entry}
    (hentry : entry ∈ memory.entities .integrations)
    (hother : Scope.mentions type ids entry.2 = false) {id : String} (hid : id ∈ ids) :
    (Content.referencesIn type entry.2).count id = 0 := by
  cases hfound : Query.at? (.object entry.2) ["document", type.name] with
  | none => simp [Content.referencesIn, hfound]
  | some value =>
    obtain ⟨found, rfl⟩ := (h entry hentry).2 type htype value hfound
    rw [Content.referencesIn_texts hfound, List.count_eq_zero]
    intro hmem
    rw [Scope.mentions_texts hfound, List.any_eq_false] at hother
    exact hother id hid (by simpa using hmem)

/-- What is added under an id that is looked for are the titles of all that refer to it. -/
theorem TextReferences.flatMap_mentions (h : memory.TextReferences)
    (htype : type ≠ .integrations) (id : String) :
    (((memory.entities .integrations).filter fun entry =>
        Scope.belongs space entry.2 && Scope.mentions type ids entry.2).flatMap fun entry =>
      List.replicate (((Content.referencesIn type entry.2).filter ids.contains).count id)
        (Json.text (Content.titleOf entry))) =
      if id ∈ ids then (memory.referring type space id).map Json.text else [] := by
  by_cases hid : id ∈ ids
  · rw [if_pos hid, referring, List.map_flatMap, flatMap_filter]
    refine List.flatMap_congr fun entry hentry => ?_
    rw [List.count_filter (by simpa using hid)]
    cases hbelongs : Scope.belongs space entry.2 with
    | false => rfl
    | true =>
      cases hmentions : Scope.mentions type ids entry.2 with
      | true => simp
      | false => simp [h.count_eq_zero htype hentry hmentions hid]
  · rw [if_neg hid, List.flatMap_eq_nil_iff]
    intro entry _
    have hnone : ((Content.referencesIn type entry.2).filter ids.contains).count id = 0 := by
      rw [List.count_eq_zero, List.mem_filter]
      exact fun h => hid (by simpa using h.2)
    rw [hnone, List.replicate_zero]

end Memory

namespace Catalog

variable {deployment : Deployment} {world : World} {type : EntityType}

/-- A scan for references goes through the integrations of the space that have one. -/
theorem performs_references_scan (h : deployment.Standard) (hworld : world.Standing) (space : Space)
    {ids : List String} (hids : ids ≠ []) :
    (referringTitles type space ids).Performs deployment world []
      ((((world.memory.entities .integrations).filter fun entry =>
        Scope.belongs space entry.2 && Scope.mentions type ids entry.2).map
          (Store.toHit (Content.referenceView type))).foldlM (addTitles type ids) []) := by
  have hmapping : world.memory.mappings.get? ".cti-integrations" = some Memory.defaultMapping :=
    hworld.mapped _ (by decide)
  have hindex : deployment.settings.integrationsIndex = ".cti-integrations" :=
    h.indexFor .integrations
  rw [referringTitles, if_neg (by simpa using hids)]
  refine Resolver.performs_scoped_scan h hworld.probed hindex (by decide) space
    (Scope.apply_field space _ ids) (fun fields hfields => ?_)
    (Content.projected_references type) [] (addTitles type ids)
  rw [hmapping] at hfields
  exact Memory.found_references hmapping hfields

/-- The titles that are looked up for some ids are those of the integrations that refer to them. -/
theorem performs_referringTitles (h : deployment.Standard) (hworld : world.Standing)
    (htexts : world.memory.TextReferences) (htype : type ≠ .integrations) (space : Space)
    (ids : List String) :
    ∃ titles, (referringTitles type space ids).Performs deployment world [] (.ok titles) ∧
      ∀ id, (titles.get? id).getD [] =
        if id ∈ ids then (world.memory.referring type space id).map Json.text else [] := by
  have hfound : ∀ entry ∈ (world.memory.entities .integrations).filter fun entry =>
      Scope.belongs space entry.2 && Scope.mentions type ids entry.2,
        Content.Refers type entry.2 := by
    intro entry hentry
    obtain ⟨hmem, hmatches⟩ := List.mem_filter.mp hentry
    exact htexts.refers htype hmem (Bool.and_eq_true_iff.mp hmatches).2
  obtain ⟨titles, htitles, hlookups⟩ := foldlM_addTitles hfound ids []
  by_cases hids : ids = []
  · subst hids
    exact ⟨[], Work.performs_pure [], fun id => rfl⟩
  · refine ⟨titles, ?_, fun id => ?_⟩
    · rw [← htitles]
      exact performs_references_scan h hworld space hids
    · rw [hlookups id, htexts.flatMap_mentions htype id]
      rfl

/-! ### Pages of the catalog -/

/-- The entities that a search finds, without the integrations that refer to them. -/
def found (type : EntityType) (space : Space) (asked : Search) : Work Page := do
  let index := (← Work.settings).indexFor type
  let query ← Resolver.within index space asked.query
  let sort := if asked.sort.truthy then asked.sort else Gate.sortBy type.titlePath
  let page ← Store.search index { asked with query, sort }
  let items ← Work.ofExcept (page.hits.mapM toItem)
  pure ⟨page.total, items⟩

/-- A page with the integrations that refer to its entities. -/
def referred (type : EntityType) (space : Space) (page : Page) : Work Page := do
  if page.items.isEmpty then return page
  let titles ← referringTitles type space (idsOf page.items)
  return ⟨page.total, page.items.map (withTitles titles)⟩

theorem search_eq (htype : type ≠ .integrations) (space : Space) (asked : Search) :
    search type space asked = found type space asked >>= referred type space := by
  have hother : (type == .integrations) = false := by simpa using htype
  simp [search, found, referred, hother, bind_assoc]

theorem reads_found (h : deployment.Standard) (type : EntityType) (space : Space)
    (asked : Search) : (found type space asked).Reads deployment := by
  rw [found]
  refine Work.reads_settings.bind fun settings => ?_
  refine (Resolver.reads_within h _ space _).bind fun query => ?_
  refine (Store.reads_search h _ _).bind fun page => ?_
  exact (Work.reads_ofExcept _).bind fun items => Work.reads_pure _

/-- What becomes of a page when integrations are looked up: its entities stay, and each one with an
id comes with the integrations that refer to it, by the contents alone. An empty id counts as none.
-/
structure Referred (memory : Memory) (type : EntityType) (space : Space) (page shown : Page) :
    Prop where
  total : shown.total = page.total
  entities : (shown.items.map fun item => (item.docId, item.document)) =
    page.items.map fun item => (item.docId, item.document)
  integrations : ∀ item ∈ shown.items, ∀ id, item.document.get? "id" = some (.text id) →
    item.integrations =
      if id = "" then [] else (memory.referring type space id).map Json.text

theorem mem_idsOf_iff {items : List Item} {item : Item} {id : String} (hitem : item ∈ items)
    (hid : item.document.get? "id" = some (.text id)) : id ∈ idsOf items ↔ id ≠ "" := by
  constructor
  · intro hmem
    obtain ⟨other, -, hother⟩ := List.mem_filterMap.mp hmem
    obtain ⟨value, hvalue, rfl⟩ := Option.map_eq_some_iff.mp hother
    exact Json.display_ne_empty hvalue
  · intro hsome
    refine List.mem_filterMap.mpr ⟨item, hitem, ?_⟩
    simp [Json.under, hid, Json.given?, Json.truthy, hsome, Json.display]

theorem performs_referred (h : deployment.Standard) (hworld : world.Standing)
    (htexts : world.memory.TextReferences) (htype : type ≠ .integrations) (space : Space)
    (page : Page) :
    ∃ shown, (referred type space page).Performs deployment world [] (.ok shown) ∧
      Referred world.memory type space page shown := by
  by_cases hempty : page.items = []
  · refine ⟨page, ?_, rfl, rfl, ?_⟩
    · rw [referred, if_pos (by simpa using hempty)]
      exact Work.performs_pure page
    · rw [hempty]
      exact fun item hitem => by cases hitem
  obtain ⟨titles, htitles, hlookups⟩ :=
    performs_referringTitles h hworld htexts htype space (idsOf page.items)
  refine ⟨⟨page.total, page.items.map (withTitles titles)⟩, ?_, rfl, ?_, ?_⟩
  · rw [referred, if_neg (by simpa using hempty)]
    exact htitles.read_bind fun _ _ => Work.performs_pure _
  · rw [List.map_map]
    rfl
  · intro shown hshown id hid
    obtain ⟨item, hitem, rfl⟩ := List.mem_map.mp hshown
    -- a text is displayed as it is
    have hdisplay : (Json.under item.document "id").display = id := by
      rw [Json.under, show Table.get? item.document "id" = _ from hid]
      rfl
    rw [withTitles, hdisplay, hlookups id]
    simp only [mem_idsOf_iff hitem hid, ite_not]

/-- Every entity with an id that a search of the catalog shows comes with the titles of the
integrations of its space that refer to it, whatever the search was and whatever else is on the
page. With an empty id, which counts as none, it comes with no titles. Looking them up ends in no
fault of its own. -/
theorem references (h : deployment.Standard) (hworld : world.Standing)
    (htexts : world.memory.TextReferences) (htype : type ≠ .integrations) (space : Space)
    (asked : Search) :
    (∀ page later, (search type space asked).runOn deployment world = (.ok page, later) →
      ∀ item ∈ page.items, ∀ id, item.document.get? "id" = some (.text id) →
        item.integrations =
          if id = "" then [] else (world.memory.referring type space id).map Json.text) ∧
    (world.rules = [] →
      match (found type space asked).runOn deployment world with
      | (.error fault, _) => ((search type space asked).runOn deployment world).1 = .error fault
      | (.ok page, _) => ∃ shown later,
        (search type space asked).runOn deployment world = (.ok shown, later) ∧
          Referred world.memory type space page shown) := by
  have hreads := reads_found h type space asked world
  rw [search_eq htype, Work.runOn_bind]
  rcases hfound : (found type space asked).runOn deployment world with ⟨fault | page, middle⟩
  · refine ⟨fun page later hrun => ?_, fun _ => rfl⟩
    cases hrun
  · rw [hfound] at hreads
    -- the titles are looked up in the documents that the page was found in
    have hmemory : middle.memory = world.memory := hreads.memory_eq
    rw [← hmemory] at htexts ⊢
    obtain ⟨shown, hperforms, hreferred⟩ :=
      performs_referred h (hworld.after hreads) htexts htype space page
    refine ⟨fun last later hrun item hitem => ?_, fun hrules => ?_⟩
    · obtain rfl := Except.ok.inj (hperforms.of_ok hrun).1
      exact hreferred.integrations item hitem
    · obtain ⟨later, hrun, -⟩ := hperforms.run_eq (hreads.rules hrules)
      exact ⟨shown, later, hrun, hreferred⟩

/-- A store with one decoder of `draft`, that is named twice by one integration of `draft`, once by
one without a title, and once by one of `test`. -/
def sharedDecoder : World :=
  { memory :=
      { mappings := contentIndexes.map fun index => (index, Memory.defaultMapping)
        indexes :=
          [(".cti-decoders", [("d", body "draft" [("id", .text "x")])]),
           (".cti-integrations",
            [("a", body "draft" [("title", .text "ssh"), decoders ["x", "y", "x"]]),
             ("b", body "draft" [decoders ["x"]]),
             ("c", body "test" [("title", .text "dns"), decoders ["x"]])])] } }
where
  decoders (ids : List String) : String × Json := ("decoders", Json.texts ids)
  body (space : String) (fields : Table Json) : Table Json :=
    [("space", .object [("name", .text space)]), ("document", .object fields)]

theorem sharedDecoder_textReferences : sharedDecoder.memory.TextReferences :=
  Memory.textReferences_of_all (by decide +kernel)

theorem references_sharedDecoder :
    ∃ shown later, (search .decoders .draft {}).runOn { settings := { pageSize := 1 } }
        sharedDecoder = (.ok shown, later) ∧
      ∀ item ∈ shown.items, item.document.get? "id" = some (.text "x") →
        item.integrations = [.text "ssh", .text "ssh", .text "b"] := by
  have hfound : ((found .decoders .draft {}).runOn { settings := { pageSize := 1 } }
      sharedDecoder).1 =
        .ok ⟨1, [⟨"d", [("id", .text "x")], []⟩]⟩ := by decide +kernel
  have hreferring : sharedDecoder.memory.referring .decoders .draft "x" = ["ssh", "ssh", "b"] := by
    decide +kernel
  obtain ⟨-, h⟩ := @references { settings := { pageSize := 1 } } sharedDecoder .decoders
    ⟨rfl, rfl, rfl, by decide⟩
    ⟨by decide +kernel, fun _ _ _ hkept => by cases hkept⟩ sharedDecoder_textReferences (by decide)
    .draft {}
  have hsearch := h rfl
  rcases hrun : (found .decoders .draft {}).runOn { settings := { pageSize := 1 } }
      sharedDecoder with ⟨fault | page, middle⟩
  · rw [hrun] at hfound
    cases hfound
  · rw [hrun] at hsearch
    obtain ⟨shown, later, hshown, hreferred⟩ := hsearch
    refine ⟨shown, later, hshown, fun item hitem hid => ?_⟩
    rw [hreferred.integrations item hitem "x" hid, if_neg (by decide), hreferring]
    rfl

end Catalog

end Lifecycle
