import Lifecycle.Proofs.Operations
import Lifecycle.Proofs.Resizing
import Lifecycle.Proofs.Serving

/-!
# The size of pages does not matter

Everything that is done on a store in memory is put together from operations of the store that are
parallel for two sizes of pages, so that all of it is: reading and editing policies, the gate, the
ledgers, previews, commits and the catalog, and with them the operations behind the HTTP interface
(`Endpoint.Asked.parallel_work`) and the handling of requests (`Service.parallel_handle`). A scan
itself finds what one search for everything does, with a bounded number of searches. The main
statement says both (`page_size_irrelevant`).
-/

namespace Lifecycle

variable {deployment : Deployment} {size : Int}

open Work

section

variable (h : deployment.Resizes size)

include h

/-! ### Policies -/

namespace Policies

theorem parallel_get? (space : Space) :
    Parallel deployment size (get? space) (get? space) := by
  rw [get?, first?]
  refine parallel_settings_bind ?_
  refine (Resolver.parallel_within h _ space .null).bind fun query => ?_
  refine (Store.parallel_search h _ _).bind fun page => ?_
  cases page.hits with
  | nil => exact parallel_pure none
  | cons hit rest => exact (parallel_ofExcept _).bind fun record => parallel_pure (some record)

theorem parallel_integrationEntries (space : Space) (ids : List String)
    (paths : Option (List String)) :
    Parallel deployment size (integrationEntries space ids paths)
      (integrationEntries space ids paths) := by
  rw [integrationEntries]
  dsimp only
  split
  · exact parallel_pure []
  · refine parallel_settings_bind ?_
    refine (Resolver.parallel_within h _ space _).bind fun query => ?_
    exact Store.parallel_scan h _ query _ [] addIntegration

theorem parallel_search (space : Space) (asked : Search) (paths : Option (List String)) :
    Parallel deployment size (search space asked paths) (search space asked paths) := by
  rw [search]
  refine parallel_settings_bind ?_
  refine (Resolver.parallel_within h _ space _).bind fun query => ?_
  refine (Store.parallel_search h _ _).bind fun page => (parallel_ofExcept _).bind fun records => ?_
  exact (parallel_integrationEntries h space _ paths).bind fun entries => parallel_pure _

theorem parallel_save (space : Space) (document : Policy) (current shape : Option PolicyRecord) :
    Parallel deployment size (save space document current shape)
      (save space document current shape) := by
  rw [save]
  refine parallel_settings_bind ?_
  refine parallel_now.bind fun time => ?_
  refine (parallel_ofExcept _).bind fun place => ?_
  exact (Store.parallel_upsert h _ _ _).bind fun _ => parallel_pure _

theorem parallel_editable (space : Space) (action : Action) :
    Parallel deployment size (editable space action) (editable space action) := by
  rw [editable]
  dsimp only
  split
  · exact parallel_throw _
  · refine (parallel_get? h space).bind fun found => ?_
    cases found with
    | none => exact parallel_throw _
    | some record => exact parallel_pure record

theorem parallel_reorder (space : Space) (wanted : List String) :
    Parallel deployment size (reorder space wanted) (reorder space wanted) := by
  rw [reorder]
  exact (parallel_editable h space _).bind fun record => parallel_save h space _ _ _

theorem parallel_update (space : Space) (given : PolicyUpdate) :
    Parallel deployment size (update space given) (update space given) := by
  rw [update]
  exact (parallel_editable h space _).bind fun record => parallel_save h space _ _ _

end Policies

/-! ### The gate -/

namespace Gate

theorem parallel_decoderExists (space : Space) (decoder : String) :
    Parallel deployment size (decoderExists space decoder) (decoderExists space decoder) := by
  rw [decoderExists]
  refine parallel_settings_bind ?_
  refine (Resolver.parallel_within h _ space _).bind fun query => ?_
  exact (Store.parallel_search h _ _).bind fun page => parallel_pure _

theorem parallel_check (space : Space) :
    Parallel deployment size (check space) (check space) := by
  rw [check]
  refine (Policies.parallel_get? h space).bind fun policy => ?_
  have hsatisfied : Parallel deployment size (isSatisfied space policy)
      (isSatisfied space policy) := by
    cases policy with
    | none => exact parallel_pure false
    | some record =>
      rw [isSatisfied]
      split
      · exact parallel_pure false
      · exact parallel_decoderExists h space _
  exact hsatisfied.bind fun satisfied => parallel_pure _

theorem parallel_ensure (space : Space) :
    Parallel deployment size (ensure space) (ensure space) := by
  rw [ensure]
  refine (parallel_check h space).bind fun requirement => ?_
  split
  · exact parallel_throw _
  · exact parallel_pure _

theorem parallel_assign (space : Space) (decoder : String) :
    Parallel deployment size (assign space decoder) (assign space decoder) := by
  rw [assign]
  refine (Policies.parallel_editable h space _).bind fun record => ?_
  have hsave : Parallel deployment size
      (Policies.save space { record.document with rootDecoder := Text.trim decoder } (some record)
        none)
      (Policies.save space { record.document with rootDecoder := Text.trim decoder } (some record)
        none) := Policies.parallel_save h space _ _ _
  dsimp only
  split
  · refine (parallel_decoderExists h space _).bind fun found => ?_
    cases found with
    | false => exact parallel_throw _
    | true => exact hsave
  · exact hsave

theorem parallel_candidates (space : Space) (text : Option String) (first count : Int) :
    Parallel deployment size (candidates space text first count)
      (candidates space text first count) := by
  rw [candidates]
  refine parallel_settings_bind ?_
  refine (Resolver.parallel_within h _ space _).bind fun query => ?_
  refine (Store.parallel_search h _ _).bind fun page => ?_
  exact (parallel_ofExcept _).bind fun items => parallel_pure _

end Gate

/-! ### Ledgers and previews -/

namespace Ledger

theorem parallel_hashes (type : EntityType) (space : Space) :
    Parallel deployment size (hashes type space) (hashes type space) := by
  rw [hashes]
  refine parallel_settings_bind ?_
  rw [Deployment.indexFor_paged]
  refine (Resolver.parallel_within h _ space .null).bind fun query => ?_
  exact Store.parallel_scan h _ query _ [] addHash

theorem parallel_entityChanges (type : EntityType) (space target : Space) :
    Parallel deployment size (entityChanges type space target)
      (entityChanges type space target) := by
  rw [entityChanges]
  refine (parallel_hashes h type space).bind fun source => ?_
  exact (parallel_hashes h type target).bind fun successor => parallel_pure _

theorem parallel_policyChanges (space target : Space) :
    Parallel deployment size (policyChanges space target) (policyChanges space target) := by
  rw [policyChanges]
  refine (Policies.parallel_get? h space).bind fun found => ?_
  cases found with
  | none => exact parallel_pure []
  | some source =>
    exact (Policies.parallel_get? h target).bind fun successor => parallel_pure _

theorem parallel_compared (space target : Space) :
    Parallel deployment size (compared space target) (compared space target) := by
  rw [compared]
  refine (parallel_policyChanges h space target).bind fun policy => ?_
  refine (parallel_entityChanges h .integrations space target).bind fun integrations => ?_
  refine (parallel_entityChanges h .decoders space target).bind fun decoders => ?_
  refine (parallel_entityChanges h .kvdbs space target).bind fun kvdbs => ?_
  exact (parallel_entityChanges h .rules space target).bind fun rules => parallel_pure _

omit h in
theorem parallel_told (space : Space) :
    Parallel deployment size (told space) (told space) := by
  rw [told]
  refine parallel_read_bind ?_
  exact (parallel_exchange _).bind fun reply => parallel_ofExcept _

theorem parallel_changes (space target : Space) :
    Parallel deployment size (changes space target) (changes space target) := by
  have hfixed : (deployment.paged size).fixedChanges = deployment.fixedChanges := rfl
  have hledger : (deployment.paged size).settings.changeLedger =
      deployment.settings.changeLedger := rfl
  rw [changes]
  refine parallel_read_bind ?_
  rw [hfixed, hledger]
  rcases deployment.fixedChanges with _ | value
  · rcases deployment.settings.changeLedger with _ | _
    · exact parallel_compared h space target
    · exact parallel_told space
  · exact parallel_ofExcept _

end Ledger

namespace Preview

theorem parallel_changesOf (space : Space) :
    Parallel deployment size (changesOf space) (changesOf space) := by
  rw [changesOf]
  refine (parallel_ofExcept _).bind fun target => ?_
  exact (Ledger.parallel_changes h space target).bind fun raw => parallel_pure _

theorem parallel_namesIn (type : EntityType) (ids : List String) (space : Space) :
    Parallel deployment size (namesIn type ids space) (namesIn type ids space) := by
  rw [namesIn]
  refine parallel_settings_bind ?_
  rw [Deployment.indexFor_paged]
  refine (Resolver.parallel_within h _ space _).bind fun query => ?_
  exact Store.parallel_scan h _ query _ [] (addName type.titleKey)

theorem parallel_namesFor (type : EntityType) (changes : List Change) (space target : Space) :
    Parallel deployment size (namesFor type changes space target)
      (namesFor type changes space target) := by
  rw [namesFor]
  dsimp only
  split
  · exact parallel_pure []
  · refine (parallel_namesIn h type _ space).bind fun source => ?_
    exact (parallel_namesIn h type _ target).bind fun successor => parallel_pure _

theorem parallel_ofSpace (space : Space) :
    Parallel deployment size (ofSpace space) (ofSpace space) := by
  rw [ofSpace]
  refine (parallel_ofExcept _).bind fun target => ?_
  refine (parallel_changesOf h space).bind fun found => ?_
  refine (parallel_namesFor h .integrations _ space target).bind fun integrations => ?_
  refine (parallel_namesFor h .decoders _ space target).bind fun decoders => ?_
  refine (parallel_namesFor h .kvdbs _ space target).bind fun kvdbs => ?_
  exact (parallel_namesFor h .rules _ space target).bind fun rules => parallel_pure _

end Preview

/-! ### Commits -/

namespace Commit

theorem parallel_copies (type : EntityType) (ids : List String) (space : Space) (source : Json) :
    Parallel deployment size (copies type ids space source) (copies type ids space source) := by
  rw [copies]
  refine parallel_settings_bind ?_
  rw [Deployment.indexFor_paged]
  refine (Resolver.parallel_within h _ space _).bind fun query => ?_
  exact Store.parallel_scan h _ query source [] addCopy

theorem parallel_writeCopies (type : EntityType) (target : Space) (sources existing : Table Hit)
    (changes : List Change) (counts : Counts) :
    Parallel deployment size
      (writeCopies deployment.settings type target sources existing changes counts)
      (writeCopies (deployment.paged size).settings type target sources existing changes
        counts) := by
  induction changes generalizing counts with
  | nil => exact parallel_pure counts
  | cons change rest ih =>
    rw [writeCopies, writeCopies, Deployment.indexFor_paged]
    refine Parallel.bind (parallel_ofExcept
      (storageId deployment.settings existing target change.id)) fun docId => ?_
    exact (Store.parallel_upsert h _ docId _).bind fun _ => ih _

theorem parallel_write (type : EntityType) (changes : List Change) (space target : Space) :
    Parallel deployment size (write type changes space target)
      (write type changes space target) := by
  rw [write]
  refine parallel_settings_bind ?_
  refine (parallel_copies h type _ space .null).bind fun sources => ?_
  dsimp only
  split
  · exact parallel_throw _
  · refine (parallel_copies h type _ target _).bind fun existing => ?_
    exact parallel_writeCopies h type target sources existing changes []

theorem parallel_removeCopies (index : String) (existing : Table Hit) (ids : List String)
    (count : Nat) :
    Parallel deployment size (removeCopies index existing ids count)
      (removeCopies index existing ids count) := by
  induction ids generalizing count with
  | nil => exact parallel_pure count
  | cons id rest ih =>
    rw [removeCopies]
    cases existing.get? id with
    | none => exact ih count
    | some hit => exact (Store.parallel_delete h index hit.id).bind fun _ => ih _

theorem parallel_remove (type : EntityType) (changes : List Change) (target : Space) :
    Parallel deployment size (remove type changes target) (remove type changes target) := by
  rw [remove]
  refine parallel_settings_bind ?_
  rw [Deployment.indexFor_paged]
  refine (parallel_copies h type _ target _).bind fun existing => ?_
  exact parallel_removeCopies h _ existing _ 0

theorem parallel_promotePolicy (space target : Space) :
    Parallel deployment size (promotePolicy space target) (promotePolicy space target) := by
  rw [promotePolicy]
  refine (Policies.parallel_get? h space).bind fun found => ?_
  cases found with
  | none => exact parallel_throw _
  | some source =>
    refine (Policies.parallel_get? h target).bind fun current => ?_
    dsimp only
    split
    · exact parallel_pure false
    · exact (Policies.parallel_save h target _ _ _).bind fun _ => parallel_pure true

theorem parallel_writeAll (plan : EntityType → List Change) (space target : Space)
    (types : List EntityType) (applied : Table Counts) :
    Parallel deployment size (writeAll plan space target types applied)
      (writeAll plan space target types applied) := by
  induction types generalizing applied with
  | nil => exact parallel_pure applied
  | cons type rest ih =>
    rw [writeAll]
    split
    · exact ih applied
    · exact ((parallel_write h type _ space target).step type.name).bind fun counts => ih _

theorem parallel_removeAll (plan : EntityType → List Change) (target : Space)
    (types : List EntityType) (applied : Table Counts) :
    Parallel deployment size (removeAll plan target types applied)
      (removeAll plan target types applied) := by
  induction types generalizing applied with
  | nil => exact parallel_pure applied
  | cons type rest ih =>
    rw [removeAll]
    split
    · exact ih applied
    · exact ((parallel_remove h type _ target).step type.name).bind fun count => ih _

theorem parallel_promote (space : Space) (submitted : ChangeSet) :
    Parallel deployment size (promote space submitted) (promote space submitted) := by
  rw [promote]
  refine (parallel_ofExcept _).bind fun target => ?_
  refine (Gate.parallel_ensure h space).bind fun _ => ?_
  refine (Preview.parallel_changesOf h space).bind fun fresh => ?_
  rw [execute_eq]
  refine (parallel_writeAll h _ space target _ []).bind fun applied => ?_
  have hpolicy : Parallel deployment size (policyWork submitted.hasPolicyUpdate space target)
      (policyWork submitted.hasPolicyUpdate space target) := by
    rw [policyWork]
    split
    · exact (parallel_promotePolicy h space target).step policyStep
    · exact parallel_pure false
  refine hpolicy.bind fun policyUpdated => ?_
  exact (parallel_removeAll h _ target _ applied).bind fun _ => parallel_pure _

end Commit

/-! ### The catalog -/

namespace Catalog

theorem parallel_referringTitles (type : EntityType) (space : Space) (ids : List String) :
    Parallel deployment size (referringTitles type space ids)
      (referringTitles type space ids) := by
  rw [referringTitles]
  dsimp only
  split
  · exact parallel_pure []
  · refine parallel_settings_bind ?_
    refine (Resolver.parallel_within h _ space _).bind fun query => ?_
    exact Store.parallel_scan h _ query _ [] (addTitles type ids)

theorem parallel_search (type : EntityType) (space : Space) (asked : Search) :
    Parallel deployment size (search type space asked) (search type space asked) := by
  rw [search]
  refine parallel_settings_bind ?_
  rw [Deployment.indexFor_paged]
  refine (Resolver.parallel_within h _ space _).bind fun query => ?_
  refine (Store.parallel_search h _ _).bind fun page => ?_
  refine (parallel_ofExcept _).bind fun items => ?_
  split
  · exact parallel_pure _
  · exact (parallel_referringTitles h type space _).bind fun titles => parallel_pure _

end Catalog

/-! ### Operations and requests -/

theorem Endpoint.Asked.parallel_work (asked : Asked) :
    Parallel deployment size asked.work asked.work := by
  cases asked with
  | spaces => exact parallel_pure _
  | preview name =>
    rw [work, Endpoint.preview]
    refine (parallel_ofExcept _).bind fun space => (parallel_ofExcept _).bind fun _ => ?_
    refine (Gate.parallel_ensure h space).bind fun _ => ?_
    exact (Preview.parallel_ofSpace h space).bind fun found => parallel_pure _
  | promote request =>
    rw [work, Endpoint.promote]
    exact (Commit.parallel_promote h _ _).bind fun report => parallel_pure _
  | policies name first count =>
    rw [work, Endpoint.policies]
    refine (parallel_ofExcept _).bind fun space => ?_
    exact (Policies.parallel_search h space _ none).bind fun page => parallel_pure _
  | policy name =>
    rw [work, Endpoint.policy]
    refine (parallel_ofExcept _).bind fun space => ?_
    refine (Policies.parallel_get? h space).bind fun found => ?_
    cases found with
    | none => exact parallel_throw _
    | some record => exact parallel_pure _
  | updatePolicy name update =>
    rw [work, Endpoint.updatePolicy]
    refine (parallel_ofExcept _).bind fun space => ?_
    exact (Policies.parallel_update h space update).bind fun record => parallel_pure _
  | reorder name request =>
    rw [work, Endpoint.reorder]
    refine (parallel_ofExcept _).bind fun space => ?_
    exact (Policies.parallel_reorder h space _).bind fun record => parallel_pure _
  | rootDecoder name =>
    rw [work, Endpoint.rootDecoder]
    refine (parallel_ofExcept _).bind fun space => ?_
    exact (Gate.parallel_check h space).bind fun requirement => parallel_pure _
  | setRootDecoder name update =>
    rw [work, Endpoint.setRootDecoder]
    refine (parallel_ofExcept _).bind fun space => ?_
    exact (Gate.parallel_assign h space _).bind fun record => parallel_pure _
  | candidates name text first count =>
    rw [work, Endpoint.candidates]
    refine (parallel_ofExcept _).bind fun space => ?_
    exact (Gate.parallel_candidates h space text first count).bind fun page => parallel_pure _
  | content typeName name first count =>
    rw [work, Endpoint.content]
    refine (parallel_ofExcept _).bind fun type => (parallel_ofExcept _).bind fun space => ?_
    exact (Catalog.parallel_search h type space _).bind fun page => parallel_pure _

namespace Service

omit h in
theorem parallel_answering {α : Type} (place : String) (checked : Checked α)
    {work : α → Work Json} (hwork : ∀ value, Parallel deployment size (work value) (work value)) :
    Parallel deployment size (answering place checked work) (answering place checked work) := by
  cases checked with
  | bad details => exact parallel_pure _
  | good value =>
    intro world other hworld
    obtain ⟨houtcome, hlater⟩ := hwork value world other hworld
    rw [runOn_answering_good, runOn_answering_good, houtcome]
    exact ⟨rfl, hlater⟩

theorem parallel_handle (request : Request) :
    Parallel deployment size (handle request) (handle request) := by
  cases hroute : routeOf? request with
  | none =>
    rcases handle_of_no_route hroute with hnone | hnone <;> (rw [hnone]; exact parallel_pure _)
  | some route =>
    have hasked : ∀ asked : Endpoint.Asked, Parallel deployment size asked.work asked.work :=
      fun asked => asked.parallel_work h
    rw [handle_of_route hroute]
    unfold answer
    cases route with
    | spaces => exact parallel_answering _ _ fun _ => hasked .spaces
    | preview name => exact parallel_answering _ _ fun _ => hasked (.preview name)
    | promote => exact parallel_answering "body" _ fun request => hasked (.promote request)
    | policies =>
      exact parallel_answering _ _ fun ⟨name, first, count⟩ =>
        hasked (.policies name first count)
    | policy name => exact parallel_answering _ _ fun _ => hasked (.policy name)
    | updatePolicy name =>
      exact parallel_answering _ _ fun update => hasked (.updatePolicy name update)
    | reorder name => exact parallel_answering _ _ fun wanted => hasked (.reorder name wanted)
    | rootDecoder name => exact parallel_answering _ _ fun _ => hasked (.rootDecoder name)
    | setRootDecoder name =>
      exact parallel_answering _ _ fun update => hasked (.setRootDecoder name update)
    | candidates name =>
      exact parallel_answering _ _ fun ⟨first, count⟩ =>
        hasked (.candidates name _ first count)
    | content type =>
      exact parallel_answering _ _ fun ⟨name, first, count⟩ =>
        hasked (.content type name first count)

/-- One request more that is served on both sides leaves twins, and so does a run of them. -/
theorem twins_serveAll {world other : World} (hworld : world.Twins other) {events : List Event}
    (hevents : ∀ event ∈ events, ∀ rule ∈ event.rules, rule.method ≠ .search) :
    (serveAll deployment world events).Twins (serveAll (deployment.paged size) other events) := by
  induction events generalizing world other with
  | nil => exact hworld
  | cons event rest ih =>
    rw [serveAll_cons, serveAll_cons]
    have hunder : (world.under event.rules).Twins (other.under event.rules) :=
      { hworld with passes := hevents event List.mem_cons_self, rules := rfl }
    exact ih (parallel_handle h event.request _ _ hunder).2
      fun event hevent => hevents event (List.mem_cons_of_mem _ hevent)

end Service

end

/-! ### The main statement -/

/-- Work has the same outcome with pages of another size, and leaves the same world behind, but for
the reads that are logged. -/
def Work.Resized {α : Type} (work : Work α) (deployment : Deployment) (size : Int)
    (world : World) : Prop :=
  (work.runOn (deployment.paged size) world).1 = (work.runOn deployment world).1 ∧
    (work.runOn deployment world).2.Twins (work.runOn (deployment.paged size) world).2

/-- The size of pages does not matter. Whatever the contents in memory are, and the settings, the
mappings and what the store says about them, as long as no search is made to fail: a scan for a
query that is supported ends as one search for everything, after a number of searches that its pages
bound. So every operation has the same outcome and leaves the same world with pages of another size,
and a run of requests leaves the same world as well. -/
theorem page_size_irrelevant (hbackend : deployment.backend = .memory) {world : World}
    (hpass : world.SearchesPass) :
    (∀ (index : String) (scanned : Store.Scan) (entries : List Query.Entry),
      0 < scanned.pageSize → world.memory.found index scanned.query = .ok entries →
        scanned.Exhausts deployment world index) ∧
    (0 < deployment.settings.pageSize → 0 < size →
      (∀ asked : Endpoint.Asked, asked.work.Resized deployment size world) ∧
      (∀ space asked paths, (Policies.search space asked paths).Resized deployment size world) ∧
      (∀ type space asked, (Catalog.search type space asked).Resized deployment size world) ∧
      (∀ events : List Service.Event,
        (∀ event ∈ events, ∀ rule ∈ event.rules, rule.method ≠ .search) →
          (Service.serveAll deployment world events).Twins
            (Service.serveAll (deployment.paged size) world events))) := by
  have htwins := World.Twins.refl hpass
  refine ⟨fun index scanned entries hsize hfound =>
    Store.exhausts_scanAll hbackend hsize hpass hfound, fun hpage hsize => ?_⟩
  have h : deployment.Resizes size := ⟨hbackend, hpage, hsize⟩
  refine ⟨fun asked => asked.parallel_work h world world htwins, fun space asked paths => ?_,
    fun type space asked => ?_, fun events hevents => ?_⟩
  · exact Policies.parallel_search h space asked paths world world htwins
  · exact Catalog.parallel_search h type space asked world world htwins
  · exact Service.twins_serveAll h htwins hevents

/-- A store with five decoders of `test`. -/
def fiveDecoders : World :=
  { memory :=
      { mappings := contentIndexes.map fun index => (index, Memory.defaultMapping)
        indexes := [(".cti-decoders", ["a", "b", "c", "d", "e"].map fun id => (id, body id))] } }
where
  body (id : String) : Table Json :=
    [("space", .object [("name", .text "test")]), ("document", .object [("id", .text id)])]

/-- Pages of two take three searches for the five decoders, and pages of five a single one; what is
shown of the promotion of `test` is the same. -/
theorem page_size_irrelevant_fiveDecoders :
    Store.Scan.Exhausts {} fiveDecoders ".cti-decoders" { pageSize := 2 } ∧
    ((Store.scanAll ".cti-decoders" { pageSize := 2 }).runOn { traced := true }
      fiveDecoders).2.calls.length = 3 ∧
    ((Store.scanAll ".cti-decoders" { pageSize := 5 }).runOn { traced := true }
      fiveDecoders).2.calls.length = 1 ∧
    (Endpoint.Asked.preview "test").work.Resized {} 2 fiveDecoders := by
  have hpass : fiveDecoders.SearchesPass := fun rule hrule => absurd hrule List.not_mem_nil
  have hfound : fiveDecoders.memory.found ".cti-decoders" .null =
      .ok (fiveDecoders.memory.documents ".cti-decoders") := by decide +kernel
  obtain ⟨hscan, hresized⟩ := @page_size_irrelevant {} 2 rfl fiveDecoders hpass
  obtain ⟨hasked, -⟩ := hresized (by decide) (by decide)
  exact ⟨hscan _ _ _ (by decide) hfound, by decide +kernel, by decide +kernel, hasked _⟩

end Lifecycle
