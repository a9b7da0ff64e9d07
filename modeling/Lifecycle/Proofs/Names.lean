import Lifecycle.Proofs.Classification
import Lifecycle.Proofs.Paging
import Lifecycle.Proofs.Reads

/-!
# Names in a preview

A preview looks for the names of what has changed in the space and in its successor. For each type
with changes it scans either space once (`Preview.runOn_namesFor`), and of the documents found that
are shown under an id and have a name the last one names the entity (`Memory.lastName?`). What is
added is named by the space first, anything else by the successor first, and an entity that neither
names by its id (`Memory.nameOf`).

This is what a preview shows of any contents whose entities have texts as ids, behind any answer of
the ledger and whatever the page size is, for the types whose index can be searched for ids
(`preview_names`). An index that cannot be is found to have no names at all
(`preview_names_unmappedIds`).
-/

namespace Lifecycle

variable {deployment : Deployment} {world later last : World} {memory : Memory} {type : EntityType}
  {space target : Space} {id : String} {ids : List String}

/-! ### Displays -/

namespace Shortest

theorem positional_ne_nil (digits : List Char) (point : Int) : positional digits point ≠ [] := by
  rw [positional]
  split
  · exact List.cons_ne_nil _ _
  · dsimp only
    split <;> simp

theorem scientific_ne_nil (layout : Layout) (digits : List Char) (point : Int) :
    scientific layout digits point ≠ [] := by
  simp [scientific]

/-- Every number is written with some character. -/
theorem write_ne_nil (layout : Layout) (x : Binary64) : layout.write x ≠ [] := by
  cases x with
  | undefined => exact List.cons_ne_nil _ _
  | infinite negative => simp [Layout.write]
  | finite negative m e =>
    rw [Layout.write]
    dsimp only
    refine List.append_ne_nil_of_right_ne_nil _ ?_
    split
    · exact positional_ne_nil _ _
    · exact scientific_ne_nil _ _ _

end Shortest

namespace Json

/-- A value that counts as given is displayed as some text. -/
theorem display_ne_empty {value given : Json} (h : value.given? = some given) :
    given.display ≠ "" := by
  obtain ⟨htruthy, rfl⟩ : value.truthy = true ∧ value = given := by
    rw [given?] at h
    split at h
    · rename_i htruthy
      exact ⟨htruthy, Option.some.inj h⟩
    · cases h
  cases value with
  | null => cases htruthy
  | bool b =>
    cases b with
    | false => cases htruthy
    | true => decide
  | int n => cases n <;> simp [display, nested, toString, Int.repr]
  | float x => simpa [display, nested, floatText] using Shortest.write_ne_nil Shortest.standard x
  | text s => simpa [display, truthy] using htruthy
  | list items => simp [display, nested]
  | object fields => simp [display, nested]

end Json

/-! ### Names of documents -/

namespace Content

/-- The display name in a body, if its document has one that counts as given. -/
def nameIn? (type : EntityType) (body : Table Json) : Option String :=
  match documentFields body with
  | .ok fields => (Json.under fields type.titleKey).given?.map Json.display
  | .error _ => none

/-- The id that a body is shown under with its display name, if it has both. -/
def named? (type : EntityType) (body : Table Json) : Option (String × String) :=
  (shownId? body).bind fun id => (nameIn? type body).map fun name => (id, name)

theorem nameIn?_ne_empty {type : EntityType} {body : Table Json} {name : String}
    (h : nameIn? type body = some name) : name ≠ "" := by
  rw [nameIn?] at h
  cases hfields : documentFields body with
  | error fault =>
    rw [hfields] at h
    cases h
  | ok fields =>
    rw [hfields] at h
    obtain ⟨given, hgiven, rfl⟩ := Option.map_eq_some_iff.mp h
    exact Json.display_ne_empty hgiven

/-- What a search for names shows of a body. -/
def nameView (type : EntityType) (body : Table Json) : Table Json :=
  Query.partsAt body ["document.id", type.titlePath]

theorem projected_name (type : EntityType) (body : Table Json) :
    Query.projected (Json.texts ["document.id", type.titlePath]) body = .ok (nameView type body) :=
  rfl

/-- What is shown of a document at two of its keys. -/
theorem partsAt_document {body fields : Table Json} {path other key second : String}
    (hpath : Text.split '.' path = ["document", key])
    (hother : Text.split '.' other = ["document", second]) (hkey : key ≠ second)
    (hdocument : body.get? "document" = some (.object fields))
    (hsome : (fields.get? key).isSome ∨ (fields.get? second).isSome) :
    Query.partsAt body [path, other] = [("document", .object
      (((fields.get? key).toList.map fun value => (key, value)) ++
        (fields.get? second).toList.map fun value => (second, value)))] := by
  have hpart : ∀ key, Query.at? (.object body) ["document", key] = fields.get? key := by
    intro key
    simp only [Query.at?, hdocument]
    cases Table.get? fields key <;> rfl
  rw [Query.partsAt, List.foldl_cons, List.foldl_cons, List.foldl_nil, hpath, hother,
    Query.withPart, hpart, Query.withPart, hpart]
  cases hfirst : fields.get? key with
  | none =>
    cases hlast : fields.get? second with
    | none => simp [hfirst, hlast] at hsome
    | some last => rfl
  | some first =>
    cases fields.get? second with
    | none => rfl
    | some last => simp [Query.place, Table.put, Table.get?, hkey]

/-- A document that has an id is shown with it, and with what it has under the key of the name. -/
theorem nameView_eq {body fields : Table Json} {value : Json} (type : EntityType)
    (hdocument : body.get? "document" = some (.object fields))
    (hid : fields.get? "id" = some value) :
    nameView type body = [("document", .object (("id", value) ::
      (fields.get? type.titleKey).toList.map fun name => (type.titleKey, name)))] := by
  have htitle : Text.split '.' type.titlePath = ["document", type.titleKey] := by
    cases type <;> decide
  have hkey : "id" ≠ type.titleKey := by cases type <;> decide
  rw [nameView, partsAt_document (by decide) htitle hkey hdocument (by simp [hid]), hid]
  rfl

/-- A search for names shows the id and the name of a document as they are stored. -/
theorem named?_nameView {body : Table Json} {value : Json}
    (h : Query.at? (.object body) ["document", "id"] = some value) (type : EntityType) :
    (∃ fields, documentFields (nameView type body) = .ok fields) ∧
      named? type (nameView type body) = named? type body := by
  obtain ⟨fields, hdocument, hid⟩ := exists_document_of_at? h
  have hview := nameView_eq type hdocument hid
  set shown : Table Json := ("id", value) ::
    (fields.get? type.titleKey).toList.map fun name => (type.titleKey, name) with hshown
  have hkey : "id" ≠ type.titleKey := by cases type <;> decide
  have hfields := documentFields_of_object hdocument
  have hfields' : documentFields (nameView type body) = .ok shown :=
    documentFields_of_object (by rw [hview]; rfl)
  have hunder : Json.under shown type.titleKey = Json.under fields type.titleKey := by
    rw [Json.under, Json.under, hshown, Table.get?, if_neg hkey]
    cases fields.get? type.titleKey with
    | none => rfl
    | some name => simp [Table.get?]
  have hid' : Query.at? (.object (nameView type body)) ["document", "id"] = some value := by
    rw [hview]
    rfl
  refine ⟨⟨shown, hfields'⟩, ?_⟩
  rw [named?, named?, nameIn?, nameIn?, hfields, hfields', shownId?, shownId?,
    entityId?_of_at? h, entityId?_of_at? hid']
  dsimp only
  rw [hunder]

end Content

/-! ### Names in a space -/

namespace Memory

/-- Every document of the entities has a text as its id. -/
def TextIds (memory : Memory) : Prop :=
  ∀ type, ∀ entry ∈ memory.entities type,
    ∃ id, Query.at? (.object entry.2) ["document", "id"] = some (.text id)

/-- The name that an entity has in a space: that of the last document that is shown under its id and
has a name. -/
def lastName? (memory : Memory) (type : EntityType) (space : Space) (id : String) :
    Option String :=
  ((memory.shownAs type space id).filterMap fun entry => Content.nameIn? type entry.2).getLast?

/-- The name of a changed entity: what is added is named by the space first, anything else by its
successor first. What neither of them names is named by its id. -/
def nameOf (memory : Memory) (type : EntityType) (space target : Space) (change : Change) :
    String :=
  match change.operation with
  | .add => ((memory.lastName? type space change.id).or
      (memory.lastName? type target change.id)).getD change.id
  | .update | .remove => ((memory.lastName? type target change.id).or
      (memory.lastName? type space change.id)).getD change.id

/-- The names that a scan for some ids in a space finds. -/
def namesOf (memory : Memory) (type : EntityType) (space : Space) (ids : List String) :
    Table String :=
  Table.ofEntries ((memory.copies type ids space).filterMap fun entry =>
    Content.named? type entry.2)

theorem textIds_of_isSome (h : ∀ type, ∀ entry ∈ memory.entities type,
    ((Query.at? (.object entry.2) ["document", "id"]).bind Json.text?).isSome) :
    memory.TextIds := by
  intro type entry hentry
  obtain ⟨id, hid⟩ := Option.isSome_iff_exists.mp (h type entry hentry)
  obtain ⟨value, hvalue, htext⟩ := Option.bind_eq_some_iff.mp hid
  cases value with
  | text id => exact ⟨id, hvalue⟩
  | _ => cases htext

theorem lastName?_ne_empty {name : String} (h : memory.lastName? type space id = some name) :
    name ≠ "" := by
  obtain ⟨entry, -, hentry⟩ := List.mem_filterMap.mp (List.mem_of_getLast? h)
  exact Content.nameIn?_ne_empty hentry

theorem nameOf_ne_empty {change : Change} (h : change.id ≠ "") :
    memory.nameOf type space target change ≠ "" := by
  have hnames : ∀ first second, (((memory.lastName? type first change.id).or
      (memory.lastName? type second change.id)).getD change.id) ≠ "" := by
    intro first second
    cases hfirst : memory.lastName? type first change.id with
    | some name => exact lastName?_ne_empty hfirst
    | none =>
      cases hsecond : memory.lastName? type second change.id with
      | some name => exact lastName?_ne_empty hsecond
      | none => exact h
  rw [nameOf]
  cases change.operation with
  | add => exact hnames space target
  | update => exact hnames target space
  | remove => exact hnames target space

/-- A document with a text as its id that is shown under an id has that id. -/
theorem TextIds.hasIdAmong (h : memory.TextIds) {entry : Query.Entry}
    (hentry : entry ∈ memory.entities type) (hshown : Content.shownId? entry.2 = some id)
    (hid : id ∈ ids) : Scope.hasIdAmong ids entry.2 = true := by
  obtain ⟨text, htext⟩ := h type entry hentry
  have hsame : text = id := by
    by_cases hempty : text = ""
    · rw [Content.shownId?, Content.entityId?_of_at? htext, hempty] at hshown
      cases hshown
    · exact Option.some.inj ((Content.shownId?_of_text htext hempty).symm.trans hshown)
  rw [Scope.hasIdAmong, htext, hsame]
  exact List.any_eq_true.mpr ⟨id, hid, by simp [Query.holdsValue, Json.same]⟩

/-- Of a document that is found the name counts if it is shown under the id. -/
theorem filter_named? (body : Table Json) :
    ((Content.named? type body).filter fun named => named.1 == id).map (·.2) =
      if (Content.shownId? body == some id) = true then Content.nameIn? type body else none := by
  rw [Content.named?]
  cases Content.shownId? body with
  | none => rfl
  | some other =>
    by_cases hsame : other = id
    · cases Content.nameIn? type body <;> simp [hsame]
    · cases Content.nameIn? type body <;> simp [hsame]

/-- Of the ids looked for each has the name that the space gives it, if ids can be searched. -/
theorem TextIds.get?_namesOf (h : memory.TextIds) (hid : id ∈ ids) :
    (memory.namesOf type space ids).get? id =
      if memory.idsSearchable type then memory.lastName? type space id else none := by
  have hfound : ((memory.copies type ids space).filterMap fun entry =>
      ((Content.named? type entry.2).filter fun named => named.1 == id).map (·.2)) =
      if memory.idsSearchable type = true
      then (memory.shownAs type space id).filterMap fun entry => Content.nameIn? type entry.2
      else [] := by
    simp only [filter_named?, copies, shownAs, List.filterMap_filter]
    cases hsearchable : memory.idsSearchable type with
    | false =>
      have hasked : ∀ body,
          memory.asked (({} : ContentSettings).indexFor type) space ids body = false := by
        intro body
        rw [asked, show Query.searchable _ "document.id" = false from hsearchable,
          Bool.false_and, Bool.and_false]
      simp [hasked]
    | true =>
      rw [if_pos rfl]
      refine List.filterMap_congr fun entry hentry => ?_
      rw [asked, show Query.searchable _ "document.id" = true from hsearchable, Bool.true_and]
      by_cases hshown : Content.shownId? entry.2 = some id
      · rw [h.hasIdAmong hentry hshown hid, Bool.and_true, hshown, beq_self_eq_true,
          Bool.and_true, if_pos rfl]
      · rw [beq_eq_false_iff_ne.mpr hshown, Bool.and_false, if_neg Bool.false_ne_true, ite_self]
  rw [namesOf, Table.get?_ofEntries, ← List.getLast?_filter, ← List.getLast?_map,
    List.filter_filterMap, List.map_filterMap, hfound, lastName?]
  split <;> rfl

end Memory

/-! ### Searches that are made -/

/-- The searches that are logged. -/
def World.searches (world : World) : List Call :=
  world.calls.filter fun call => call.method == .search

/-- The world after some searches, as a log of all calls shows them, and perhaps some probes. -/
structure World.Searched (deployment : Deployment) (world : World) (made : List Call)
    (later : World) : Prop where
  unmoved : world.Unmoved later
  searches : deployment.traced = true → later.searches = world.searches ++ made

namespace World

theorem Searched.refl (deployment : Deployment) (world : World) :
    world.Searched deployment [] world :=
  ⟨⟨rfl, rfl, rfl, id⟩, fun _ => (List.append_nil _).symm⟩

theorem Searched.trans {made more : List Call} (h : world.Searched deployment made later)
    (h' : later.Searched deployment more last) :
    world.Searched deployment (made ++ more) last where
  unmoved :=
    { memory := h'.unmoved.memory.trans h.unmoved.memory
      replies := h'.unmoved.replies.trans h.unmoved.replies
      rules := h'.unmoved.rules.trans h.unmoved.rules
      probed := h'.unmoved.probed ∘ h.unmoved.probed }
  searches htraced := by rw [h'.searches htraced, h.searches htraced, List.append_assoc]

theorem SearchesPass.unmoved (h : world.SearchesPass) (hlater : world.Unmoved later) :
    later.SearchesPass := by
  intro rule hrule hsearch
  have hlasting : rule ∈ FailureRule.lasting later.rules :=
    List.mem_filter.mpr ⟨hrule, by rw [hsearch]; rfl⟩
  rw [hlater.rules] at hlasting
  exact h rule (List.mem_filter.mp hlasting).1 hsearch

/-- A scan is seen in the log by its pages. -/
theorem searched_logged (deployment : Deployment) (world : World) (index : String)
    (pages : List Search) :
    world.Searched deployment (pages.map (.search index))
      (world.logged deployment (pages.map (.search index))) := by
  have hpages : (pages.map (Call.search index)).filter (fun call => call.method == .search) =
      pages.map (.search index) := by
    refine List.filter_eq_self.mpr fun call hcall => ?_
    obtain ⟨page, -, rfl⟩ := List.mem_map.mp hcall
    rfl
  refine ⟨⟨rfl, rfl, rfl, id⟩, fun htraced => ?_⟩
  rw [searches, logged, if_pos htraced, List.filter_append, hpages, searches]

end World

/-- Scoping a query makes no search, but perhaps a probe. -/
theorem Resolver.searches_within (world : World) (hbackend : deployment.backend = .memory)
    (index : String) (space : Space) (query : Json) :
    ((within index space query).runOn deployment world).2.searches = world.searches := by
  have hname : space.name ≠ "" := by cases space <;> decide
  have hprobe : (probedWorld deployment world index).searches = world.searches := by
    have hcalls : (probedWorld deployment world index).calls =
        if deployment.traced then
          world.calls ++ [.fieldCapabilities index deployment.settings.spaceFieldCandidates]
        else world.calls := rfl
    rw [World.searches, hcalls]
    cases deployment.traced with
    | false => rfl
    | true => rw [if_pos rfl, List.filter_append]; exact List.append_nil _
  have hresolve : ((resolve index).runOn deployment world).2.searches = world.searches := by
    cases hkept : world.spaceFields.get? index with
    | some fields => rw [runOn_resolve_of_kept hkept]
    | none =>
      rw [runOn_resolve_of_none hkept, runOn_probe_memory hbackend]
      exact hprobe
  rw [within, scopedQuery]
  · rw [Work.runOn_bind]
    rcases hrun : (resolve index).runOn deployment world with ⟨_ | fields, middle⟩
    · rw [hrun] at hresolve
      exact hresolve
    · rw [hrun] at hresolve
      dsimp only
      rw [Work.runOn_ofExcept]
      exact hresolve
  · exact hname

namespace Preview

/-- The scan for the names of some entities in a space, behind a query in some space fields. -/
def scanOf (deployment : Deployment) (type : EntityType) (space : Space)
    (ids fields : List String) : Store.Scan :=
  { query := Scope.withIds space ids fields
    source := Json.texts ["document.id", type.titlePath]
    pageSize := deployment.settings.pageSize }

/-- The searches of the scan for the names of some entities in a space: one for each page of the
documents that are found. -/
def searchesFor (deployment : Deployment) (memory : Memory) (type : EntityType) (space : Space)
    (ids fields : List String) : List Call :=
  ((scanOf deployment type space ids fields).pages (memory.copies type ids space).length).map
    (.search (({} : ContentSettings).indexFor type))

/-- The searches for the names of the changes of a type: those of one scan of the space and of one
scan of its successor, each in space fields that were probed, or none if there are no changes. -/
def Scans (deployment : Deployment) (memory : Memory) (type : EntityType) (changes : List Change)
    (space target : Space) (made : List Call) : Prop :=
  if changes = [] then made = []
  else ∃ fields more,
    Scope.Probed (memory.mappings.get? (({} : ContentSettings).indexFor type)) fields ∧
    Scope.Probed (memory.mappings.get? (({} : ContentSettings).indexFor type)) more ∧
    made = searchesFor deployment memory type space (Change.ids changes) fields ++
      searchesFor deployment memory type target (Change.ids changes) more

/-- Names are added one after another. -/
theorem foldlM_addName (type : EntityType) {hits : List Hit}
    (h : ∀ hit ∈ hits, ∃ fields, Content.documentFields hit.source = .ok fields)
    (start : Table String) :
    hits.foldlM (addName type.titleKey) start =
      .ok (start.putAll (hits.filterMap fun hit => Content.named? type hit.source)) := by
  induction hits generalizing start with
  | nil => rfl
  | cons hit rest ih =>
    obtain ⟨fields, hfields⟩ := h hit List.mem_cons_self
    have hrest := ih fun other hother => h other (List.mem_cons_of_mem _ hother)
    have hadd : addName type.titleKey start hit =
        .ok (start.putAll (Content.named? type hit.source).toList) := by
      rw [addName, Content.named?, Content.nameIn?, Content.shownId?, Content.entityId?, hfields]
      simp only [bind, Except.bind, pure, Except.pure]
      cases (Json.under fields "id").given? <;>
        cases (Json.under fields type.titleKey).given? <;> rfl
    rw [List.foldlM_cons, hadd, List.filterMap_cons]
    show rest.foldlM (addName type.titleKey) _ = _
    rw [hrest]
    cases Content.named? type hit.source <;> rfl

/-- The names in a space are found by one scan. -/
theorem runOn_namesIn (h : deployment.Standard) (hworld : world.Probed)
    (hpass : world.SearchesPass) (hids : world.memory.TextIds) (type : EntityType)
    (ids : List String) (space : Space) :
    ∃ fields later,
      (namesIn type ids space).runOn deployment world =
        (.ok (world.memory.namesOf type space ids), later) ∧
      Scope.Probed
        (world.memory.mappings.get? (({} : ContentSettings).indexFor type)) fields ∧
      world.Searched deployment (searchesFor deployment world.memory type space ids fields)
        later := by
  obtain ⟨fields, middle, hwithin, hfields, hunmoved⟩ :=
    Resolver.runOn_within h hworld (indexFor_mem type) space (Scope.apply_terms space ids)
  have hsearches := Resolver.searches_within world h.backend
    (({} : ContentSettings).indexFor type) space (Scope.terms "document.id" ids)
  rw [hwithin] at hsearches
  have hmiddle : world.Searched deployment [] middle :=
    ⟨hunmoved, fun _ => by rw [List.append_nil]; exact hsearches⟩
  have hfound : middle.memory.found (({} : ContentSettings).indexFor type)
      (scanOf deployment type space ids fields).query =
        .ok (world.memory.copies type ids space) := by
    rw [hunmoved.memory]
    exact Memory.found_withIds hfields space ids
  -- what is shown of the documents is read as they are stored
  have hread : Store.gathered (Json.texts ["document.id", type.titlePath])
      (addName type.titleKey) [] (world.memory.copies type ids space) =
        .ok (world.memory.namesOf type space ids) := by
    have hshown : ∀ entry ∈ world.memory.copies type ids space,
        (∃ fields, Content.documentFields (Content.nameView type entry.2) = .ok fields) ∧
          Content.named? type (Content.nameView type entry.2) =
            Content.named? type entry.2 := by
      intro entry hentry
      obtain ⟨id, hid⟩ := hids type entry (List.mem_filter.mp hentry).1
      exact Content.named?_nameView hid type
    have hview : Query.viewOf (Json.texts ["document.id", type.titlePath]) =
        .ok (Content.nameView type) := rfl
    have hreadable : ∀ hit ∈ (world.memory.copies type ids space).map
        (Store.toHit (Content.nameView type)),
          ∃ fields, Content.documentFields hit.source = .ok fields :=
      List.forall_mem_map.mpr fun entry hentry => (hshown entry hentry).1
    have hadded := foldlM_addName type hreadable []
    rw [Store.gathered, Store.hitsOf_of_view hview]
    refine hadded.trans (congrArg Except.ok ?_)
    rw [List.filterMap_map, Memory.namesOf]
    exact congrArg Table.ofEntries
      (List.filterMap_congr fun entry hentry => (hshown entry hentry).2)
  have hsize : 0 < (scanOf deployment type space ids fields).pageSize := h.pageSize
  obtain ⟨made, -, hmade, hscan, -⟩ := Store.runOn_scan h.backend hsize (addName type.titleKey) []
    (hpass.unmoved hunmoved) hfound
  have houtcome : Store.gathered (scanOf deployment type space ids fields).source
      (addName type.titleKey) [] (world.memory.copies type ids space) = _ := hread
  rw [houtcome, hmade _ houtcome] at hscan
  refine ⟨fields, _, ?_, hfields,
    hmiddle.trans (World.searched_logged deployment middle _ _)⟩
  rw [namesIn, Work.runOn_settings_bind, h.indexFor type, Work.runOn_bind, hwithin]
  exact hscan

/-- The name that the code settles on is the one that the spaces give, where ids can be searched. -/
theorem displayName_namesOf (hids : memory.TextIds) {change : Change} (hchange : change.id ∈ ids) :
    displayName (memory.namesOf type space ids) (memory.namesOf type target ids) change =
      if memory.idsSearchable type then memory.nameOf type space target change
      else change.id := by
  have hname : ∀ space, nameOf? (memory.namesOf type space ids) change.id =
      if memory.idsSearchable type then memory.lastName? type space change.id else none := by
    intro space
    rw [nameOf?, hids.get?_namesOf hchange]
    cases memory.idsSearchable type with
    | false => rfl
    | true =>
      rw [if_pos rfl]
      cases hlast : memory.lastName? type space change.id with
      | none => rfl
      | some name => simp [Memory.lastName?_ne_empty hlast]
  rw [displayName]
  cases hoperation : change.operation <;> cases hsearchable : memory.idsSearchable type <;>
    simp [hname, hsearchable, Memory.nameOf, hoperation]

/-- The names of the changes of a type as a preview shows them. -/
def namesBy (memory : Memory) (type : EntityType) (changes : List Change) (space target : Space) :
    Table String :=
  changes.map fun change => (change.id,
    if memory.idsSearchable type then memory.nameOf type space target change else change.id)

/-- The names of a type are found by one scan of either space, if there are changes. -/
theorem runOn_namesFor (h : deployment.Standard) (hworld : world.Probed)
    (hpass : world.SearchesPass) (hids : world.memory.TextIds) (type : EntityType)
    {changes : List Change} (hregular : Change.Regular changes) (space target : Space) :
    ∃ made later, Scans deployment world.memory type changes space target made ∧
      world.Searched deployment made later ∧
      (namesFor type changes space target).runOn deployment world =
        (.ok (namesBy world.memory type changes space target), later) := by
  by_cases hempty : changes = []
  · subst hempty
    exact ⟨[], world, rfl, .refl deployment world, rfl⟩
  · obtain ⟨fields, middle, hsource, hfields, hmiddle⟩ :=
      runOn_namesIn h hworld hpass hids type (Change.ids changes) space
    have hmemory := hmiddle.unmoved.memory
    obtain ⟨more, last, htarget, hmore, hlast⟩ :=
      runOn_namesIn h (hmiddle.unmoved.probed hworld) (hpass.unmoved hmiddle.unmoved)
        (hmemory ▸ hids) type (Change.ids changes) target
    rw [hmemory] at htarget hmore hlast
    have hscans : Scans deployment world.memory type changes space target _ :=
      (if_neg hempty).mpr ⟨fields, more, hfields, hmore, rfl⟩
    refine ⟨_, last, hscans, hmiddle.trans hlast, ?_⟩
    have hdistinct : Table.Distinct (namesBy world.memory type changes space target) := by
      have hkeys : Table.keys (namesBy world.memory type changes space target) =
          Change.ids changes := by
        rw [Table.keys, namesBy, List.map_map]
        rfl
      rw [Table.Distinct, hkeys]
      exact hregular.nodup
    have hnames : (changes.map fun change => (change.id, displayName
        (world.memory.namesOf type space (Change.ids changes))
        (world.memory.namesOf type target (Change.ids changes)) change)) =
          namesBy world.memory type changes space target :=
      List.map_congr_left fun change hchange => by
        have hid : change.id ∈ Change.ids changes := List.mem_map_of_mem hchange
        rw [displayName_namesOf hids hid]
    rw [namesFor, if_neg (by simpa using hempty)]
    show (namesIn type (Change.ids changes) space >>= fun source =>
      namesIn type (Change.ids changes) target >>= fun successor =>
        pure (Table.ofEntries (changes.map fun change =>
          (change.id, displayName source successor change)))).runOn deployment world = _
    rw [Work.runOn_bind, hsource]
    dsimp only
    rw [Work.runOn_bind, htarget]
    dsimp only
    rw [hnames, hdistinct.ofEntries_eq_self]
    rfl

/-- Behind the answer of the ledger the names of one type are found after those of the other. -/
theorem runOn_ofSpace {told : World} {found : ChangeSet} (h : deployment.Standard)
    (htarget : space.target? = some target)
    (hchanges : (changesOf space).runOn deployment world = (.ok found, told))
    (hregular : ∀ type, Change.Regular (found.of type)) (htold : told.Probed)
    (hpass : told.SearchesPass) (hids : told.memory.TextIds) :
    ∃ made later,
      (∀ type, Scans deployment told.memory type (found.of type) space target (made type)) ∧
      told.Searched deployment (EntityType.all.flatMap made) later ∧
      (ofSpace space).runOn deployment world =
        (.ok ⟨space, found, fun type => namesBy told.memory type (found.of type) space target⟩,
          later) := by
  have hnames : ∀ type middle, ∀ before, told.Searched deployment before middle →
      ∃ made later, Scans deployment told.memory type (found.of type) space target made ∧
        told.Searched deployment (before ++ made) later ∧
        (namesFor type (found.of type) space target).runOn deployment middle =
          (.ok (namesBy told.memory type (found.of type) space target), later) := by
    intro type middle before hmiddle
    have hmemory := hmiddle.unmoved.memory
    obtain ⟨made, later, hscans, hlater, hrun⟩ :=
      runOn_namesFor h (hmiddle.unmoved.probed htold) (hpass.unmoved hmiddle.unmoved)
        (hmemory ▸ hids) type (hregular type) space target
    rw [hmemory] at hscans hrun
    exact ⟨made, later, hscans, hmiddle.trans hlater, hrun⟩
  obtain ⟨integrations, first, hintegrations, hfirst, hrunIntegrations⟩ :=
    hnames .integrations told [] (.refl deployment told)
  obtain ⟨decoders, second, hdecoders, hsecond, hrunDecoders⟩ := hnames .decoders first _ hfirst
  obtain ⟨kvdbs, third, hkvdbs, hthird, hrunKvdbs⟩ := hnames .kvdbs second _ hsecond
  obtain ⟨rules, last, hrules, hlast, hrunRules⟩ := hnames .rules third _ hthird
  have hsuccessor : successor space = .ok target := by rw [successor, htarget]
  refine ⟨EntityType.rec integrations decoders kvdbs rules, last, fun type => ?_, ?_, ?_⟩
  · cases type <;> assumption
  · simpa [EntityType.all] using hlast
  · rw [ofSpace, hsuccessor, Work.runOn_bind, Work.runOn_ofExcept]
    dsimp only
    rw [Work.runOn_bind, hchanges]
    dsimp only
    rw [Work.runOn_bind, show found.integrations = found.of .integrations from rfl,
      hrunIntegrations]
    dsimp only
    rw [Work.runOn_bind, show found.decoders = found.of .decoders from rfl, hrunDecoders]
    dsimp only
    rw [Work.runOn_bind, show found.kvdbs = found.of .kvdbs from rfl, hrunKvdbs]
    dsimp only
    rw [Work.runOn_bind, show found.rules = found.of .rules from rfl, hrunRules]
    refine Prod.ext (congrArg (Except.ok ∘ Preview.mk space found) (funext fun type => ?_)) rfl
    cases type <;> rfl

/-- What a preview shows behind an answer of the ledger: its changes in normal form, each with its
name in the order of the changes, and whether there are any changes of entities. -/
structure Shows (memory : Memory) (space target : Space) (raw : ChangeSet) (preview : Preview) :
    Prop where
  source : preview.space = space
  changes : preview.changes = raw.normalised
  names : ∀ type, preview.names type = namesBy memory type (raw.normalised.of type) space target
  named : ∀ type, ∀ entry ∈ preview.names type, entry.2 ≠ ""
  nothing : preview.nothingToPromote = true ↔ ∀ type, raw.normalised.of type = []

theorem normalised_regular (raw : ChangeSet) (type : EntityType) :
    Change.Regular (raw.normalised.of type) := by
  cases type <;> exact Change.normalised_regular _

theorem shows_namesBy (memory : Memory) (space target : Space) (raw : ChangeSet) :
    Shows memory space target raw ⟨space, raw.normalised, fun type =>
      namesBy memory type (raw.normalised.of type) space target⟩ where
  source := rfl
  changes := rfl
  names _ := rfl
  named type entry hentry := by
    obtain ⟨change, hchange, rfl⟩ := List.mem_map.mp hentry
    have hid := (normalised_regular raw type).nonempty change hchange
    dsimp only
    split
    · exact Memory.nameOf_ne_empty hid
    · exact hid
  nothing := by
    rw [nothingToPromote, ChangeSet.isEmpty, List.all_eq_true]
    simp only [EntityType.mem_all, true_imp_iff, List.isEmpty_iff]

end Preview

/-! ### What a preview shows -/

/-- A preview of contents whose entities have texts as ids ends as the ledger does, and writes
nothing. Behind an answer it shows the changes with their names, and has made the searches of one
scan of either space for each type with changes, and no others, as a log of all calls shows. -/
theorem preview_names (h : deployment.Standard) (hworld : world.Probed) (hrules : world.rules = [])
    (hids : world.memory.TextIds) (htarget : space.target? = some target) :
    let run := (Preview.ofSpace space).runOn deployment world
    (run.2.memory = world.memory ∧ run.2.written = world.written) ∧
    (∀ fault told, (Ledger.changes space target).runOn deployment world = (.error fault, told) →
      run = (.error fault, told)) ∧
    ∀ raw told, (Ledger.changes space target).runOn deployment world = (.ok raw, told) →
      ∃ preview, run.1 = .ok preview ∧ preview.Shows world.memory space target raw ∧
        ∃ made : EntityType → List Call,
          (∀ type, Preview.Scans deployment world.memory type (raw.normalised.of type) space target
            (made type)) ∧
          (deployment.traced = true →
            run.2.searches = told.searches ++ EntityType.all.flatMap made) := by
  intro run
  have hsuccessor : Preview.successor space = .ok target := by rw [Preview.successor, htarget]
  have hchanges : (Preview.changesOf space).runOn deployment world =
      (((Ledger.changes space target).runOn deployment world).1.map ChangeSet.normalised,
        ((Ledger.changes space target).runOn deployment world).2) := by
    rw [Preview.changesOf, hsuccessor, Work.runOn_bind, Work.runOn_ofExcept]
    dsimp only
    rw [Work.runOn_bind]
    rcases (Ledger.changes space target).runOn deployment world with ⟨_ | raw, told⟩ <;> rfl
  refine ⟨?_, fun fault told hledger => ?_, fun raw told hledger => ?_⟩
  · have hafter : world.After [] none run.2 := Preview.reads_ofSpace h space world
    exact ⟨hafter.memory_eq, by simpa using hafter.written⟩
  · rw [hledger] at hchanges
    show (Preview.ofSpace space).runOn deployment world = _
    rw [Preview.ofSpace, hsuccessor, Work.runOn_bind, Work.runOn_ofExcept]
    dsimp only
    rw [Work.runOn_bind, hchanges]
    rfl
  · have hafter : world.After [] none told := by
      have hreads := Ledger.reads_changes h space target world
      rw [hledger] at hreads
      exact hreads
    have hmemory := hafter.memory_eq
    have hpass : told.SearchesPass := by
      rw [World.SearchesPass, hafter.rules hrules]
      exact List.forall_mem_nil _
    rw [hledger] at hchanges
    obtain ⟨made, later, hscans, hsearched, hrun⟩ :=
      Preview.runOn_ofSpace h htarget hchanges (Preview.normalised_regular raw)
        (hafter.probed hworld) hpass (hmemory ▸ hids)
    rw [hmemory] at hscans hrun
    refine ⟨_, congrArg Prod.fst hrun, Preview.shows_namesBy world.memory space target raw, made,
      hscans, fun htraced => ?_⟩
    rw [show run.2 = later from congrArg Prod.snd hrun]
    exact hsearched.searches htraced

/-- A store with decoders of two spaces over several pages. In `draft` two have the same id, and one
has no name; in `test` the names of these two ids are others, and one has an empty name. -/
def namedDecoders : World :=
  { memory :=
      { mappings := [(".cti-decoders", Memory.defaultMapping)]
        indexes := [(".cti-decoders",
          [("a", body "draft" [("id", .text "x"), ("name", .text "one")]),
           ("b", body "draft" [("id", .text "y")]),
           ("c", body "test" [("id", .text "x"), ("name", .text "three")]),
           ("d", body "draft" [("id", .text "x"), ("name", .text "two")]),
           ("e", body "test" [("id", .text "y"), ("name", .int 7)]),
           ("f", body "test" [("id", .text "z"), ("name", .text "")])])] } }
where
  body (space : String) (document : Table Json) : Table Json :=
    [("space", .object [("name", .text space)]), ("document", .object document)]

/-- A deployment with changes in place of a ledger, and with two documents to a page. -/
def namedDeployment : Deployment :=
  { settings := { pageSize := 2 }
    fixedChanges := some (.object [("decoders", .list
      [change "d_x" "add", change "y" "add", change "x" "update", change "z" "remove"])]) }
where
  change (id operation : String) : Json :=
    .object [("id", .text id), ("operation", .text operation)]

/-- What is added has the last name in `draft`, or else the one in `test`; what has no name at all
has its id. The second change of `x` is not one of the normal form. -/
theorem preview_names_namedDecoders :
    ∃ preview,
      ((Preview.ofSpace .draft).runOn namedDeployment namedDecoders).1 = .ok preview ∧
      preview.names .decoders = [("x", "two"), ("y", "7"), ("z", "z")] ∧
      preview.names .rules = [] ∧
      preview.nothingToPromote = false := by
  have hstandard : namedDeployment.Standard := ⟨rfl, rfl, rfl, by decide⟩
  have hprobed : namedDecoders.Probed := by
    intro index _ fields hkept
    cases hkept
  have hids : namedDecoders.memory.TextIds := by
    refine Memory.textIds_of_isSome fun type => ?_
    cases type <;> decide +kernel
  have hledger : (Ledger.changes .draft .test).runOn namedDeployment namedDecoders =
      (.ok { decoders := [⟨"d_x", .add⟩, ⟨"y", .add⟩, ⟨"x", .update⟩, ⟨"z", .remove⟩] },
        namedDecoders) := rfl
  obtain ⟨-, -, hnamed⟩ := preview_names hstandard hprobed rfl hids
    (show Space.draft.target? = some .test from rfl)
  obtain ⟨preview, hpreview, hshows, -⟩ := hnamed _ _ hledger
  refine ⟨preview, hpreview, ?_, ?_, ?_⟩
  · rw [hshows.names]
    decide +kernel
  · rw [hshows.names]
    decide +kernel
  · rw [Bool.eq_false_iff, Ne, hshows.nothing]
    intro hempty
    exact absurd (hempty .decoders) (by decide +kernel)

/-- A store with a decoder whose index cannot be searched for ids. -/
def unmappedIds : World :=
  { memory :=
      { mappings := [(".cti-decoders",
          [("space", "object"), ("space.name", "text"), ("space.name.keyword", "keyword")])]
        indexes := [(".cti-decoders",
          [("a", [("space", .object [("name", .text "draft")]),
            ("document", .object [("id", .text "x"), ("name", .text "one")])])])] } }

/-- A deployment where a decoder is to be added. -/
def addingX : Deployment :=
  { fixedChanges := some (.object [("decoders", .list
      [.object [("id", .text "x"), ("operation", .text "add")]])]) }

/-- The decoder has a name in the space that is previewed, but the preview shows its id. -/
theorem preview_names_unmappedIds :
    unmappedIds.memory.TextIds ∧
    unmappedIds.memory.nameOf .decoders .draft .test ⟨"x", .add⟩ = "one" ∧
    ∃ preview, ((Preview.ofSpace .draft).runOn addingX unmappedIds).1 = .ok preview ∧
      preview.changes.decoders = [⟨"x", .add⟩] ∧
      preview.names .decoders = [("x", "x")] := by
  have hids : unmappedIds.memory.TextIds := by
    refine Memory.textIds_of_isSome fun type => ?_
    cases type <;> decide +kernel
  exact ⟨hids, by decide +kernel, _, rfl, by decide +kernel, by decide +kernel⟩

end Lifecycle
