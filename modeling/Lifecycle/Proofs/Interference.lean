import Lifecycle.Proofs.Agreement
import Lifecycle.Proofs.Convergence
import Lifecycle.Proofs.Sharing

/-!
# Other spaces do not interfere with a promotion

Operations on a space and its successor agree on any two contents that share the documents of these
two: every query is scoped to one of them, so that it finds shared documents
(`Store.agrees_lookup`), and every write puts a document of the successor under a storage id that is
clear, or removes what was found. So the gate, the ledgers and previews agree
(`Gate.agrees_check`, `Preview.agrees_ofSpace`), and the stages of a commit agree and keep the
sharing, but for the time in the policy that is written (`Commit.agrees_execute`). In the end
nothing of a promotion depends on what else the store holds (`promotion_unaffected`).
-/

namespace Lifecycle

variable {α β : Type} {deployment : Deployment} {space target named : Space}
  {sight : Table Json → Table Json} {world other : World}

/-- Alike worlds whose contents share the documents of two spaces. -/
abbrev World.Sharing (sight : Table Json → Table Json) (space target : Space) :
    World → World → Prop :=
  World.Alike (Memory.Sharing sight space target)

/-- Worlds that share documents as they are share them as they are looked at. -/
theorem World.sharing_inSight (sight : Table Json → Table Json) (world other : World)
    (h : World.Sharing id space target world other) :
    World.Sharing sight space target world other :=
  h.mono fun _ _ hmemory => hmemory.inSight sight

/-! ### Lookups -/

namespace Store

/-- Scans of the copies in one of the two spaces agree. -/
theorem agrees_lookup (h : deployment.Standard)
    (hworld : World.Sharing sight space target world other)
    (hnamed : named = space ∨ named = target) (type : EntityType) {query : Json}
    {narrowed : List String → Json}
    (happly : ∀ fields, Scope.apply query (some named.name) fields = .ok (narrowed fields))
    {test : Query.Entry → Bool}
    (htest : ∀ entry, test entry = true → Scope.belongs named entry.2 = true)
    (hfound : ∀ (memory : Memory) fields, memory.Plain →
      Scope.Probed (memory.mappings.get? (({} : ContentSettings).indexFor type)) fields →
        memory.found (({} : ContentSettings).indexFor type) (narrowed fields) =
          .ok ((memory.entities type).filter test))
    {source : Json} {view : Table Json → Table Json}
    (hview : ∀ body, Query.projected source body = .ok (view body)) (start : β)
    (step : β → Hit → Except Fault β) :
    Work.Agrees deployment (World.Sharing sight space target)
      (do
        let query ← Resolver.within (deployment.settings.indexFor type) named query
        scan (deployment.settings.indexFor type)
          { query, source, pageSize := deployment.settings.pageSize } start step) world
      (do
        let query ← Resolver.within (deployment.settings.indexFor type) named query
        scan (deployment.settings.indexFor type)
          { query, source, pageSize := deployment.settings.pageSize } start step) other := by
  rw [h.indexFor type]
  refine Resolver.agrees_found h hworld (indexFor_mem type) named happly hfound ?_ ?_
  · intro _ _ hmemory
    exact (hmemory.entities type).filter_eq fun entry hentry =>
      Scope.belongsToOne_of hnamed (htest entry hentry)
  · intro _ _ _ _ hlater hfound hfound' hsame
    exact agrees_scan h.backend hview h.pageSize start step hlater hfound hfound' hsame

/-- Scans of the copies of some entities in one of the two spaces agree. -/
theorem agrees_lookup_ids (h : deployment.Standard)
    (hworld : World.Sharing sight space target world other)
    (hnamed : named = space ∨ named = target) (type : EntityType) (ids : List String)
    {source : Json} {view : Table Json → Table Json}
    (hview : ∀ body, Query.projected source body = .ok (view body)) (start : β)
    (step : β → Hit → Except Fault β) :
    Work.Agrees deployment (World.Sharing sight space target)
      (do
        let query ← Resolver.within (deployment.settings.indexFor type) named
          (Scope.terms "document.id" ids)
        scan (deployment.settings.indexFor type)
          { query, source, pageSize := deployment.settings.pageSize } start step) world
      (do
        let query ← Resolver.within (deployment.settings.indexFor type) named
          (Scope.terms "document.id" ids)
        scan (deployment.settings.indexFor type)
          { query, source, pageSize := deployment.settings.pageSize } start step) other :=
  agrees_lookup h hworld hnamed type (Scope.apply_terms named ids)
    (fun _ hentry => (Bool.and_eq_true _ _ ▸ hentry).1)
    (fun _ _ hplain hfields => hplain.found_withIds (indexFor_mem type) hfields named ids)
    hview start step

/-- Searches for the first document that is found agree, if the same documents are found. -/
theorem agrees_search_first (h : deployment.Standard) {same : Memory → Memory → Prop}
    (hworld : world.Alike same other) {index : String} {query twin source : Json}
    {entries : List Query.Entry} {view : Table Json → Table Json}
    (hview : ∀ body, Query.projected source body = .ok (view body))
    (hfound : world.memory.found index query = .ok entries)
    (hfound' : other.memory.found index twin = .ok entries) :
    Work.Agrees deployment (World.Alike same) (search index { query, size := 1, source }) world
      (search index { query := twin, size := 1, source }) other := by
  apply agrees_search h.backend hworld
  rw [Memory.search_first hfound hview, Memory.search_first hfound' hview]

end Store

/-! ### The gate -/

/-- In plain contents the policy of a space is the first document that belongs to it. -/
theorem Policies.found?_of_plain {memory : Memory} (h : memory.Plain) (named : Space) :
    found? memory named = stored? memory.policies named := by
  have hindex : ".cti-policies" ∈ contentIndexes := by decide
  have hfilter : (memory.policies.filter fun entry =>
        memory.carries ".cti-policies" named entry.2) =
      memory.policies.filter fun entry => Scope.belongs named entry.2 :=
    List.filter_congr fun _ hentry => h.carries_eq hindex hentry named
  rw [found?, ← List.head?_filter, hfilter, List.head?_filter, stored?]
  cases memory.policies.find? fun entry => Scope.belongs named entry.2 <;> rfl

theorem Policies.performs_stored (h : deployment.Standard) (hworld : world.Settled)
    (named : Space) :
    (get? named).Performs deployment world [] (stored? world.memory.policies named) := by
  rw [← found?_of_plain hworld.plain]
  exact performs_found h hworld.probed named

/-- The policy of one of the two spaces is read alike. -/
theorem Policies.agrees_get? (h : deployment.Standard)
    (hworld : World.Sharing id space target world other)
    (hnamed : named = space ∨ named = target) :
    Work.Agrees deployment (World.Sharing id space target) (get? named) world (get? named)
      other := by
  have hindex : ".cti-policies" ∈ contentIndexes := by decide
  rw [get?, first?]
  apply Work.agrees_settings_bind
  rw [h.policiesIndex]
  refine Resolver.agrees_found h hworld hindex named (Scope.apply_null named)
    (fun _ _ hplain hfields => hplain.found_inSpace hindex hfields named)
    (fun _ _ hmemory => hmemory.policies.filter_eq fun _ => Scope.belongsToOne_of hnamed) ?_
  intro query twin later last hlater hfound hfound' hsame
  rw [← hsame] at hfound'
  refine (Store.agrees_search_first h hlater (fun _ => rfl) hfound hfound').bind
    fun page behind behind' hbehind => ?_
  cases page.hits with
  | nil => exact Work.agrees_pure none hbehind
  | cons hit rest =>
    exact (Work.agrees_ofExcept _ hbehind).bind fun record _ _ hlast =>
      Work.agrees_pure (some record) hlast

namespace Gate

theorem agrees_decoderExists (h : deployment.Standard)
    (hworld : World.Sharing sight space target world other) (decoder : String) :
    Work.Agrees deployment (World.Sharing sight space target) (decoderExists space decoder) world
      (decoderExists space decoder) other := by
  have hindex := indexFor_mem .decoders
  rw [decoderExists]
  apply Work.agrees_settings_bind
  rw [show deployment.settings.decodersIndex = ({} : ContentSettings).indexFor .decoders from
    h.indexFor .decoders]
  refine Resolver.agrees_found h hworld hindex space (Scope.apply_terms space [decoder])
    (fun _ _ hplain hfields => hplain.found_withIds hindex hfields space [decoder])
    (fun _ _ hmemory => (hmemory.entities .decoders).filter_eq fun _ hentry =>
      Scope.belongsToOne_of (.inl rfl) (Bool.and_eq_true _ _ ▸ hentry).1) ?_
  intro query twin later last hlater hfound hfound' hsame
  rw [← hsame] at hfound'
  exact (Store.agrees_search_first h hlater Content.projected_id hfound hfound').bind
    fun page _ _ hbehind => Work.agrees_pure _ hbehind

theorem agrees_check (h : deployment.Standard)
    (hworld : World.Sharing id space target world other) :
    Work.Agrees deployment (World.Sharing id space target) (check space) world (check space)
      other := by
  rw [check]
  refine (Policies.agrees_get? h hworld (.inl rfl)).bind fun policy later last hlater => ?_
  have hsatisfied : Work.Agrees deployment (World.Sharing id space target)
      (isSatisfied space policy) later (isSatisfied space policy) last := by
    cases policy with
    | none => exact Work.agrees_pure false hlater
    | some record =>
      rw [isSatisfied]
      split
      · exact Work.agrees_pure false hlater
      · exact agrees_decoderExists h hlater _
  exact hsatisfied.bind fun satisfied _ _ hbehind => Work.agrees_pure _ hbehind

theorem agrees_ensure (h : deployment.Standard)
    (hworld : World.Sharing id space target world other) :
    Work.Agrees deployment (World.Sharing id space target) (ensure space) world (ensure space)
      other := by
  rw [ensure]
  refine (agrees_check h hworld).bind fun requirement later last hlater => ?_
  split
  · exact Work.agrees_throw _ hlater
  · exact Work.agrees_pure () hlater

end Gate

/-! ### Ledgers and previews -/

namespace Ledger

theorem agrees_hashes (h : deployment.Standard)
    (hworld : World.Sharing sight space target world other)
    (hnamed : named = space ∨ named = target) (type : EntityType) :
    Work.Agrees deployment (World.Sharing sight space target) (hashes type named) world
      (hashes type named) other := by
  rw [hashes]
  apply Work.agrees_settings_bind
  exact Store.agrees_lookup h hworld hnamed type (Scope.apply_null named) (fun _ => id)
    (fun _ _ hplain hfields => hplain.found_inSpace (indexFor_mem type) hfields named)
    Content.projected_document [] addHash

theorem agrees_entityChanges (h : deployment.Standard)
    (hworld : World.Sharing sight space target world other) (type : EntityType) :
    Work.Agrees deployment (World.Sharing sight space target) (entityChanges type space target)
      world (entityChanges type space target) other := by
  rw [entityChanges]
  refine (agrees_hashes h hworld (.inl rfl) type).bind fun source later last hlater => ?_
  exact (agrees_hashes h hlater (.inr rfl) type).bind fun successor _ _ hbehind =>
    Work.agrees_pure _ hbehind

theorem agrees_policyChanges (h : deployment.Standard)
    (hworld : World.Sharing id space target world other) :
    Work.Agrees deployment (World.Sharing id space target) (policyChanges space target) world
      (policyChanges space target) other := by
  rw [policyChanges]
  refine (Policies.agrees_get? h hworld (.inl rfl)).bind fun found later last hlater => ?_
  cases found with
  | none => exact Work.agrees_pure [] hlater
  | some source =>
    exact (Policies.agrees_get? h hlater (.inr rfl)).bind fun successor _ _ hbehind =>
      Work.agrees_pure _ hbehind

theorem agrees_compared (h : deployment.Standard)
    (hworld : World.Sharing id space target world other) :
    Work.Agrees deployment (World.Sharing id space target) (compared space target) world
      (compared space target) other := by
  rw [compared]
  refine (agrees_policyChanges h hworld).bind fun policy _ _ hworld => ?_
  refine (agrees_entityChanges h hworld .integrations).bind fun integrations _ _ hworld => ?_
  refine (agrees_entityChanges h hworld .decoders).bind fun decoders _ _ hworld => ?_
  refine (agrees_entityChanges h hworld .kvdbs).bind fun kvdbs _ _ hworld => ?_
  exact (agrees_entityChanges h hworld .rules).bind fun rules _ _ hworld =>
    Work.agrees_pure _ hworld

theorem agrees_told {same : Memory → Memory → Prop} (hworld : world.Alike same other)
    (space : Space) :
    Work.Agrees deployment (World.Alike same) (told space) world (told space) other := by
  rw [told]
  apply Work.agrees_read_bind
  exact (Work.agrees_exchange hworld _).bind fun reply _ _ hlater =>
    Work.agrees_ofExcept _ hlater

/-- The ledger of the deployment says the same, whichever it is. -/
theorem agrees_changes (h : deployment.Standard)
    (hworld : World.Sharing id space target world other) :
    Work.Agrees deployment (World.Sharing id space target) (changes space target) world
      (changes space target) other := by
  rw [changes]
  apply Work.agrees_read_bind
  cases deployment.fixedChanges with
  | some value => exact Work.agrees_ofExcept _ hworld
  | none =>
    cases deployment.settings.changeLedger with
    | contentHash => exact agrees_compared h hworld
    | contentManager => exact agrees_told hworld space

end Ledger

namespace Preview

theorem ofExcept_successor (htarget : space.target? = some target) :
    Work.ofExcept (successor space) = pure target := by
  rw [successor, htarget]
  rfl

theorem agrees_changesOf (h : deployment.Standard) (htarget : space.target? = some target)
    (hworld : World.Sharing id space target world other) :
    Work.Agrees deployment (World.Sharing id space target) (changesOf space) world
      (changesOf space) other := by
  rw [changesOf, ofExcept_successor htarget, pure_bind]
  exact (Ledger.agrees_changes h hworld).bind fun raw _ _ hlater => Work.agrees_pure _ hlater

theorem agrees_namesIn (h : deployment.Standard)
    (hworld : World.Sharing sight space target world other)
    (hnamed : named = space ∨ named = target) (type : EntityType) (ids : List String) :
    Work.Agrees deployment (World.Sharing sight space target) (namesIn type ids named) world
      (namesIn type ids named) other := by
  rw [namesIn]
  apply Work.agrees_settings_bind
  exact Store.agrees_lookup_ids h hworld hnamed type ids (fun _ => rfl) [] _

theorem agrees_namesFor (h : deployment.Standard)
    (hworld : World.Sharing sight space target world other) (type : EntityType)
    (changes : List Change) :
    Work.Agrees deployment (World.Sharing sight space target)
      (namesFor type changes space target) world (namesFor type changes space target) other := by
  rw [namesFor]
  dsimp only
  split
  · exact Work.agrees_pure [] hworld
  · refine (agrees_namesIn h hworld (.inl rfl) type _).bind fun source _ _ hworld => ?_
    exact (agrees_namesIn h hworld (.inr rfl) type _).bind fun successor _ _ hworld =>
      Work.agrees_pure _ hworld

/-- Previews are the same, or end in the same fault. -/
theorem agrees_ofSpace (h : deployment.Standard) (htarget : space.target? = some target)
    (hworld : World.Sharing id space target world other) :
    Work.Agrees deployment (World.Sharing id space target) (ofSpace space) world (ofSpace space)
      other := by
  rw [ofSpace, ofExcept_successor htarget, pure_bind]
  refine (agrees_changesOf h htarget hworld).bind fun found _ _ hworld => ?_
  refine (agrees_namesFor h hworld .integrations _).bind fun integrations _ _ hworld => ?_
  refine (agrees_namesFor h hworld .decoders _).bind fun decoders _ _ hworld => ?_
  refine (agrees_namesFor h hworld .kvdbs _).bind fun kvdbs _ _ hworld => ?_
  exact (agrees_namesFor h hworld .rules _).bind fun rules _ _ hworld =>
    Work.agrees_pure _ hworld

end Preview

/-! ### Copies -/

namespace Commit

theorem agrees_copies (h : deployment.Standard)
    (hworld : World.Sharing sight space target world other)
    (hnamed : named = space ∨ named = target) (type : EntityType) (ids : List String)
    {source : Json} {view : Table Json → Table Json}
    (hview : ∀ body, Query.projected source body = .ok (view body)) :
    Work.Agrees deployment (World.Sharing sight space target) (copies type ids named source) world
      (copies type ids named source) other := by
  rw [copies]
  apply Work.agrees_settings_bind
  exact Store.agrees_lookup_ids h hworld hnamed type ids hview [] addCopy

/-- What a lookup finds stands in the index and belongs to the space. -/
theorem mem_of_copies (h : deployment.Standard) (hworld : world.Settled) {type : EntityType}
    {ids : List String} {source : Json} {view : Table Json → Table Json}
    (hview : ∀ body, Query.projected source body = .ok (view body))
    (hid : ∀ body value, Query.at? (.object body) ["document", "id"] = some value →
      Query.at? (.object (view body)) ["document", "id"] = some value)
    {found : Table Hit} {later : World}
    (hrun : (copies type ids named source).runOn deployment world = (.ok found, later))
    {id : String} {hit : Hit} (hget : found.get? id = some hit) :
    ∃ body, (hit.id, body) ∈ later.memory.entities type ∧ Scope.belongs named body = true ∧
      hit.source = view body := by
  have hcopies : ∃ t : Table Hit,
      (copies type ids named source).Performs deployment world [] (.ok t) ∧
        ∀ id, t.get? id = (world.memory.copy? type ids named id).map (Store.toHit view) :=
    performs_copies_found h hworld.probed type ids named hview hid
  obtain ⟨t, hperforms, hfound⟩ := hcopies
  obtain ⟨heq, hafter⟩ := hperforms.of_ok hrun
  rw [← Except.ok.inj heq, hfound] at hget
  obtain ⟨entry, hentry, rfl⟩ := Option.map_eq_some_iff.mp hget
  obtain ⟨hmem, hcarries, -⟩ := Memory.copy?_mem hentry
  rw [hworld.plain.carries_eq (indexFor_mem type) hmem] at hcarries
  exact ⟨entry.2, by rw [hafter.memory_eq]; exact hmem, hcarries, rfl⟩

/-- The storage id of a found copy is clear. -/
theorem clear_of_copies (h : deployment.Standard) (hworld : world.Settled) {type : EntityType}
    {ids : List String} {found : Table Hit} {later : World}
    (hrun : (copies type ids target (Json.texts ["document.id"])).runOn deployment world =
      (.ok found, later))
    (hguarded : (later.memory.entities type).Guarded space target) {id : String} {hit : Hit}
    (hget : found.get? id = some hit) :
    (later.memory.entities type).Clear space target hit.id := by
  obtain ⟨body, hmem, hbelongs, -⟩ := mem_of_copies h hworld Content.projected_id
    (fun _ _ => Content.at?_idView) hrun hget
  exact hguarded.clear_of_mem hmem (Scope.belongsToOne_of (.inr rfl) hbelongs)

/-- A copy that is written stands in the index. -/
theorem entities_of_upsert (hbackend : deployment.backend = .memory) {type : EntityType}
    {key : String} {body : Table Json} {found : Unit} {later : World}
    (hrun : (Store.upsert (({} : ContentSettings).indexFor type) key body).runOn deployment world =
      (.ok found, later)) :
    later.memory.entities type = Table.put (world.memory.entities type) key body := by
  have hupsert : (Store.upsert (({} : ContentSettings).indexFor type) key body).Performs deployment
      world _ _ := Store.performs_upsert hbackend _ key body
  rw [(hupsert.of_ok hrun).2.memory]
  exact Memory.documents_put world.memory _ key body

/-- Copies are written alike whose storage ids are clear in both contents. -/
theorem agrees_writeCopies (h : deployment.Standard) {type : EntityType}
    {sources existing : Table Hit} {changes : List Change}
    (hsources : ∀ change ∈ changes,
      Scope.belongs space (sourceOf sources change.id) = true)
    (hworld : World.Sharing sight space target world other)
    (hclear : ∀ id hit, existing.get? id = some hit →
      (world.memory.entities type).Clear space target hit.id ∧
        (other.memory.entities type).Clear space target hit.id)
    (counts : Counts) :
    Work.Agrees deployment (World.Sharing sight space target)
      (writeCopies deployment.settings type target sources existing changes counts) world
      (writeCopies deployment.settings type target sources existing changes counts) other := by
  induction changes generalizing world other counts with
  | nil => exact Work.agrees_pure counts hworld
  | cons change rest ih =>
    have hplace : ∃ key, storageId deployment.settings existing target change.id = .ok key ∧
        (world.memory.entities type).Clear space target key ∧
          (other.memory.entities type).Clear space target key := by
      rw [storageId]
      cases hget : existing.get? change.id with
      | some hit => exact ⟨hit.id, rfl, hclear change.id hit hget⟩
      | none =>
        refine ⟨renderedId target change.id, ?_, ?_, ?_⟩
        · rw [h.documentId, documentId_eq]
        · exact (hworld.memory.entities type).guarded.made change.id
        · exact (hworld.memory.entities type).guarded_other.made change.id
    obtain ⟨key, hkey, hclear₁, hclear₂⟩ := hplace
    set body := successorBody (sourceOf sources change.id) target with hbody
    have hbelongs : Scope.belongsToOne space target body = true :=
      Scope.belongsToOne_of (.inr rfl)
        ((Content.belongs_successorBody (hsources change List.mem_cons_self) target).mpr rfl)
    have hkeyed : Work.ofExcept (storageId deployment.settings existing target change.id) =
        pure key := by
      rw [hkey]
      rfl
    rw [writeCopies, hkeyed, h.indexFor type, pure_bind]
    refine (Store.agrees_upsert h.backend hworld (fun _ _ => id) _ key
      (hworld.memory.put hclear₁ hclear₂ hbelongs)).bind_of (fun _ _ => id) ?_
    intro _ later last hrun hrun' hlater
    refine ih (fun other hother => hsources other (List.mem_cons_of_mem _ hother)) hlater ?_ _
    -- what was clear is so, for the new copy is one of the successor
    intro id hit hget
    obtain ⟨hone, htwo⟩ := hclear id hit hget
    rw [entities_of_upsert h.backend hrun, entities_of_upsert h.backend hrun']
    exact ⟨hone.put (hworld.memory.entities type).guarded.distinct hbelongs,
      htwo.put (hworld.memory.entities type).guarded_other.distinct hbelongs⟩

/-- The copies of a type are written alike. -/
theorem agrees_write (h : deployment.Standard)
    (hworld : World.Sharing sight space target world other) (type : EntityType)
    (changes : List Change) :
    Work.Agrees deployment (World.Sharing sight space target) (write type changes space target)
      world (write type changes space target) other := by
  rw [write]
  apply Work.agrees_settings_bind
  refine (agrees_copies h hworld (.inl rfl) type _ fun _ => rfl).bind_of (fun _ _ => id) ?_
  intro sources later last hrun _ hlater
  dsimp only
  split
  · exact Work.agrees_throw _ hlater
  · rename_i hmissing
    have hall : ∀ change ∈ changes, sources.has change.id = true := by simpa using hmissing
    have hsources : ∀ change ∈ changes,
        Scope.belongs space (sourceOf sources change.id) = true := by
      intro change hchange
      obtain ⟨hit, hhit⟩ := Option.isSome_iff_exists.mp (hall change hchange)
      obtain ⟨body, -, hbelongs, hsource⟩ :=
        mem_of_copies h hworld.settled (fun _ => rfl) (fun _ _ => id) hrun hhit
      rw [sourceOf, hhit, Option.map_some, Option.getD_some, hsource]
      exact hbelongs
    refine (agrees_copies h hlater (.inr rfl) type _ Content.projected_id).bind_of
      (fun _ _ => id) ?_
    intro existing behind behind' hexisting hexisting' hbehind
    refine agrees_writeCopies h hsources hbehind (fun id hit hget => ⟨?_, ?_⟩) []
    · exact clear_of_copies h hlater.settled hexisting
        (hbehind.memory.entities type).guarded hget
    · exact clear_of_copies h hlater.settled_other hexisting'
        (hbehind.memory.entities type).guarded_other hget

theorem agrees_removeCopies (h : deployment.Standard) (type : EntityType) (existing : Table Hit)
    (ids : List String) (count : Nat) (hworld : World.Sharing sight space target world other) :
    Work.Agrees deployment (World.Sharing sight space target)
      (removeCopies (deployment.settings.indexFor type) existing ids count) world
      (removeCopies (deployment.settings.indexFor type) existing ids count) other := by
  induction ids generalizing world other count with
  | nil => exact Work.agrees_pure count hworld
  | cons first rest ih =>
    rw [removeCopies]
    cases existing.get? first with
    | none => exact ih count hworld
    | some hit =>
      dsimp only
      have hdelete : Work.Agrees deployment (World.Sharing sight space target)
          (Store.delete (deployment.settings.indexFor type) hit.id) world
          (Store.delete (deployment.settings.indexFor type) hit.id) other := by
        rw [h.indexFor type]
        exact Store.agrees_delete h.backend hworld (fun _ _ => id) _ hit.id
          (hworld.memory.remove type hit.id)
      exact hdelete.bind fun _ later last hlater => ih _ hlater

/-- The copies of a type are removed alike. -/
theorem agrees_remove (h : deployment.Standard)
    (hworld : World.Sharing sight space target world other) (type : EntityType)
    (changes : List Change) :
    Work.Agrees deployment (World.Sharing sight space target) (remove type changes target) world
      (remove type changes target) other := by
  rw [remove]
  apply Work.agrees_settings_bind
  exact (agrees_copies h hworld (.inr rfl) type _ Content.projected_id).bind
    fun existing _ _ hlater => agrees_removeCopies h type existing _ 0 hlater

/-! ### The policy -/

/-- The storage id that a policy of the successor is saved under is clear. -/
theorem clear_placeOf {docs : Documents} (h : docs.Guarded space target)
    {current : Option PolicyRecord} (hcurrent : Policies.stored? docs target = .ok current)
    (document : Policy) (shape : Option PolicyRecord) :
    docs.Clear space target (Policies.placeOf target document current shape).1 := by
  cases current with
  | none => exact h.made (Policies.newId document)
  | some record =>
    obtain ⟨hmem, hbelongs⟩ := Documents.policyOf?_mem (Documents.stored?_eq_some hcurrent).1
    exact h.clear_of_mem hmem (Scope.belongsToOne_of (.inr rfl) hbelongs)

/-- A policy is saved for the successor at the point in time that the world is at. -/
theorem runOn_save_bind (h : deployment.Standard) (document : Policy)
    (current shape : Option PolicyRecord) (value : α) (world : World) :
    (Policies.save target document current shape >>= fun _ => pure value).runOn deployment world =
      (Store.upsert ".cti-policies" (Policies.placeOf target document current shape).1
        (Policies.savedBody target (Policies.stamped document world.clock)
          (Policies.placeOf target document current shape).2) >>= fun _ => pure value).runOn
            deployment { world with clock := world.clock + 1 } := by
  set ticked : World := { world with clock := world.clock + 1 } with hticked
  have hnow : Work.now.runOn deployment world = (.ok world.clock, ticked) := rfl
  have hplace : Policies.placeFor deployment.settings target
      (Policies.stamped document world.clock) current shape =
        .ok (Policies.placeOf target document current shape) := by
    rw [Policies.placeFor_eq h]
    cases current <;> rfl
  unfold Policies.stamped at hplace ⊢
  rw [Policies.save, Work.runOn_bind, Work.runOn_settings_bind, Work.runOn_bind, hnow]
  dsimp only
  rw [Work.runOn_bind, hplace, Work.runOn_ofExcept, h.policiesIndex]
  dsimp only
  rw [Work.runOn_bind, Work.runOn_bind]
  rcases (Store.upsert ".cti-policies" _ _).runOn deployment ticked with ⟨fault | found, later⟩
  · rfl
  · rfl

/-- The policy of the successor is saved alike, but for the point in time. -/
theorem agrees_save (h : deployment.Standard) {source : PolicyRecord}
    {current : Option PolicyRecord} (document : Policy)
    (hworld : World.Sharing Content.unstamped space target world other)
    (hsource : Policies.stored? world.memory.policies space = .ok (some source))
    (hcurrent : Policies.stored? world.memory.policies target = .ok current)
    (hcurrent' : Policies.stored? other.memory.policies target = .ok current) (value : α) :
    Work.Agrees deployment (World.Sharing Content.unstamped space target)
      (Policies.save target document current (some source) >>= fun _ => pure value) world
      (Policies.save target document current (some source) >>= fun _ => pure value) other := by
  have hticked : ∀ world : World, world.Unmoved { world with clock := world.clock + 1 } :=
    fun world => ⟨rfl, rfl, rfl, id⟩
  have hworld' := hworld.unmoved (hticked world) (hticked other)
  obtain ⟨origin, hbase⟩ := exists_belongs_placeOf hsource hcurrent document
  -- each run writes its own time, and the bodies differ in nothing else
  have hbelongs : ∀ time, Scope.belongsToOne space target
      (Policies.savedBody target (Policies.stamped document time)
        (Policies.placeOf target document current (some source)).2) = true :=
    fun time => Scope.belongsToOne_of (.inr rfl)
      ((Policies.belongs_savedBody hbase (Policies.stamped document time) target).mpr rfl)
  have hput := hworld'.memory.put_policy
    (clear_placeOf hworld.memory.policies.guarded hcurrent document (some source))
    (clear_placeOf hworld.memory.policies.guarded_other hcurrent' document (some source))
    (hbelongs world.clock) (hbelongs other.clock)
    (Policies.unstamped_savedBody_stamped hbase target document world.clock other.clock)
  have hagrees := (Store.agrees_upsert h.backend hworld' (fun _ _ => id) _ _ hput).bind
    fun _ _ _ hlater => Work.agrees_pure value hlater
  exact ⟨by rw [runOn_save_bind h, runOn_save_bind h, hagrees.outcome],
    by rw [runOn_save_bind h, runOn_save_bind h]; exact hagrees.after⟩

/-- The policy is promoted alike, but for the point in time. -/
theorem agrees_promotePolicy (h : deployment.Standard)
    (hworld : World.Sharing id space target world other) :
    Work.Agrees deployment (World.Sharing Content.unstamped space target)
      (promotePolicy space target) world (promotePolicy space target) other := by
  rw [promotePolicy]
  refine (Policies.agrees_get? h hworld (.inl rfl)).bind_of (World.sharing_inSight _) ?_
  intro found later last hrun _ hlater
  cases found with
  | none => exact Work.agrees_throw _ (World.sharing_inSight _ _ _ hlater)
  | some source =>
    refine (Policies.agrees_get? h hlater (.inr rfl)).bind_of (World.sharing_inSight _) ?_
    intro current behind behind' hrun₁ hrun₂ hbehind
    obtain ⟨hsource, hafter⟩ := (Policies.performs_stored h hworld.settled space).of_ok hrun
    obtain ⟨hcurrent, hafter₁⟩ := (Policies.performs_stored h hlater.settled target).of_ok hrun₁
    obtain ⟨hcurrent', hafter₂⟩ :=
      (Policies.performs_stored h hlater.settled_other target).of_ok hrun₂
    -- reading left the contents, so that the policies found are those of the worlds behind it
    rw [← hafter.memory_eq, ← hafter₁.memory_eq] at hsource
    rw [← hafter₁.memory_eq] at hcurrent
    rw [← hafter₂.memory_eq] at hcurrent'
    dsimp only
    split
    · exact Work.agrees_pure false (World.sharing_inSight _ _ _ hbehind)
    · exact agrees_save h _ (World.sharing_inSight _ _ _ hbehind) hsource hcurrent hcurrent' true

/-! ### Commits -/

theorem agrees_writeAll (h : deployment.Standard) (plan : EntityType → List Change)
    (types : List EntityType) (applied : Table Counts)
    (hworld : World.Sharing sight space target world other) :
    Work.Agrees deployment (World.Sharing sight space target)
      (writeAll plan space target types applied) world
      (writeAll plan space target types applied) other := by
  induction types generalizing world other applied with
  | nil => exact Work.agrees_pure applied hworld
  | cons type rest ih =>
    rw [writeAll]
    split
    · exact ih applied hworld
    · exact ((agrees_write h hworld type _).step type.name).bind fun counts _ _ hlater =>
        ih _ hlater

theorem agrees_removeAll (h : deployment.Standard) (plan : EntityType → List Change)
    (types : List EntityType) (applied : Table Counts)
    (hworld : World.Sharing sight space target world other) :
    Work.Agrees deployment (World.Sharing sight space target)
      (removeAll plan target types applied) world (removeAll plan target types applied) other := by
  induction types generalizing world other applied with
  | nil => exact Work.agrees_pure applied hworld
  | cons type rest ih =>
    rw [removeAll]
    split
    · exact ih applied hworld
    · exact ((agrees_remove h hworld type _).step type.name).bind fun count _ _ hlater =>
        ih _ hlater

/-- A commit of the same plan ends alike, but for the time in the policy that is written. -/
theorem agrees_execute (h : deployment.Standard) (plan : EntityType → List Change)
    (withPolicy : Bool) (hworld : World.Sharing id space target world other) :
    Work.Agrees deployment (World.Sharing Content.unstamped space target)
      (execute plan withPolicy space target) world (execute plan withPolicy space target)
      other := by
  have hpolicy : ∀ {later last}, World.Sharing id space target later last →
      Work.Agrees deployment (World.Sharing Content.unstamped space target)
        (policyWork withPolicy space target) later (policyWork withPolicy space target) last := by
    intro later last hlater
    cases withPolicy with
    | false => exact Work.agrees_pure false (World.sharing_inSight _ _ _ hlater)
    | true => exact (agrees_promotePolicy h hlater).step policyStep
  rw [execute_eq]
  -- up to the policy documents are shared as they are, and from then on as looked at
  refine (agrees_writeAll h plan _ [] hworld).bind_of (World.sharing_inSight _) ?_
  intro applied later last _ _ hlater
  refine (hpolicy hlater).bind fun updated behind behind' hbehind => ?_
  exact (agrees_removeAll h plan _ applied hbehind).bind fun applied _ _ hdone =>
    Work.agrees_pure _ hdone

/-- A promotion ends alike, but for the time in the policy that is written. -/
theorem agrees_promote (h : deployment.Standard) (htarget : space.target? = some target)
    (hworld : World.Sharing id space target world other) (submitted : ChangeSet) :
    Work.Agrees deployment (World.Sharing Content.unstamped space target)
      (promote space submitted) world (promote space submitted) other := by
  rw [promote, Preview.ofExcept_successor htarget, pure_bind]
  refine (Gate.agrees_ensure h hworld).bind_of (World.sharing_inSight _) ?_
  intro _ later last _ _ hlater
  refine (Preview.agrees_changesOf h htarget hlater).bind_of (World.sharing_inSight _) ?_
  intro fresh behind behind' _ _ hbehind
  exact agrees_execute h _ _ hbehind

end Commit

/-! ### Promotions -/

/-- Nothing of a promotion depends on the documents of spaces other than the two it is about: on
worlds that share the documents of these two, previews are the same, the gate says the same, and a
promotion has the same outcome and leaves the same documents of the two spaces, but for the time in
the policy. -/
theorem promotion_unaffected (h : deployment.Standard) (htarget : space.target? = some target)
    (hworld : world.Alike (Memory.Sharing id space target) other) (submitted : ChangeSet) :
    ((Preview.ofSpace space).runOn deployment world).1 =
        ((Preview.ofSpace space).runOn deployment other).1 ∧
      ((Gate.check space).runOn deployment world).1 =
        ((Gate.check space).runOn deployment other).1 ∧
      ((Commit.promote space submitted).runOn deployment world).1 =
        ((Commit.promote space submitted).runOn deployment other).1 ∧
      (∀ type,
        (((Commit.promote space submitted).runOn deployment world).2.memory.entities type).ofSpaces
            space target =
          (((Commit.promote space submitted).runOn deployment other).2.memory.entities
            type).ofSpaces space target) ∧
      (((Commit.promote space submitted).runOn deployment world).2.memory.policies.ofSpaces
          space target).seen Content.unstamped =
        (((Commit.promote space submitted).runOn deployment other).2.memory.policies.ofSpaces
          space target).seen Content.unstamped := by
  have hpreview := Preview.agrees_ofSpace h htarget hworld
  have hgate := Gate.agrees_check h hworld
  obtain ⟨houtcome, hlater⟩ := Commit.agrees_promote h htarget hworld submitted
  refine ⟨hpreview.outcome, hgate.outcome, houtcome, fun type => ?_, hlater.memory.policies.shared⟩
  have hshared := (hlater.memory.entities type).shared
  rwa [Documents.seen_id, Documents.seen_id] at hshared

def customBody (document : Table Json) : Table Json :=
  [("space", .object [("name", .text "custom")]), ("document", .object document)]

/-- The store with a linked draft, in which the space `custom` has documents too, some of them with
the ids of the draft and in front of it. One index was probed already. -/
def crowdedDraft : World :=
  { linkedDraft with
    memory :=
      { linkedDraft.memory with
        indexes :=
          [(".cti-decoders",
            [("e", customBody [("id", .text "x")]), ("a", draftBody [("id", .text "x")]),
             ("f", customBody [("id", .text "w")])]),
           (".cti-integrations",
            [("b", draftBody [("id", .text "y"), ("decoders", Json.texts ["x"])])]),
           (".cti-policies",
            [("g", customBody [("id", .text "z")]),
             ("c", draftBody [("id", .text "z"), ("root_decoder", .text "x"),
               ("integrations", Json.texts ["y"])])])] }
    spaceFields := [(".cti-decoders", ⟨Scope.namedFields, []⟩)]
    clock := 5 }

theorem Documents.guarded_of_keys {docs : Documents} (hdistinct : Table.Distinct docs)
    (hkeys : ∀ entry ∈ docs, ':' ∉ entry.1.toList) : docs.Guarded space target := by
  refine ⟨hdistinct, fun id body hmem => ?_⟩
  exact absurd (documentId_eq target id) (documentId_ne target id (hkeys _ hmem))

theorem crowdedDraft_alike : linkedDraft.Alike (Memory.Sharing id .draft .test) crowdedDraft := by
  have hkeys : ∀ world ∈ [linkedDraft, crowdedDraft], ∀ index ∈ contentIndexes,
      Table.Distinct (world.memory.documents index) ∧
        ∀ entry ∈ world.memory.documents index, ':' ∉ entry.1.toList := by
    decide
  have hguarded : ∀ world ∈ [linkedDraft, crowdedDraft], ∀ index ∈ contentIndexes,
      (world.memory.documents index).Guarded .draft .test := by
    intro world hworld index hindex
    obtain ⟨hdistinct, hplain⟩ := hkeys world hworld index hindex
    exact Documents.guarded_of_keys hdistinct hplain
  have hsame : ∀ index ∈ contentIndexes,
      ((linkedDraft.memory.documents index).ofSpaces .draft .test).seen id =
        ((crowdedDraft.memory.documents index).ofSpaces .draft .test).seen id := by
    decide
  have hsharing : ∀ index ∈ contentIndexes, Documents.Sharing id .draft .test
      (linkedDraft.memory.documents index) (crowdedDraft.memory.documents index) :=
    fun index hindex => ⟨hguarded _ (by simp) index hindex, hguarded _ (by simp) index hindex,
      hsame index hindex⟩
  refine ⟨linkedDraft_standing.settled, World.Standing.settled ⟨by decide, ?_⟩,
    ⟨fun type => hsharing _ (indexFor_mem type), hsharing ".cti-policies" (by decide)⟩, rfl, rfl⟩
  intro index _ fields hget
  obtain ⟨-, rfl⟩ := Prod.mk.inj (List.mem_singleton.mp (Table.mem_of_get? hget))
  exact .inl rfl

/-- The draft is shown and promoted alike in both stores. -/
theorem promotion_unaffected_crowdedDraft :
    linkedDraft.memory ≠ crowdedDraft.memory ∧
      linkedDraft.Alike (Memory.Sharing id .draft .test) crowdedDraft ∧
      ((Preview.ofSpace .draft).runOn {} linkedDraft).1 =
        ((Preview.ofSpace .draft).runOn {} crowdedDraft).1 ∧
      ((Commit.promote .draft { decoders := [⟨"x", .add⟩] }).runOn {} linkedDraft).1 =
        ((Commit.promote .draft { decoders := [⟨"x", .add⟩] }).runOn {} crowdedDraft).1 := by
  obtain ⟨hpreview, -, hpromote, -⟩ := promotion_unaffected Deployment.standard_default
    (show Space.target? .draft = some .test from rfl) crowdedDraft_alike
    { decoders := [⟨"x", .add⟩] }
  exact ⟨by decide, crowdedDraft_alike, hpreview, hpromote⟩

end Lifecycle
