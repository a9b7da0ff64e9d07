import Mathlib.Data.List.TakeDrop
import Lifecycle.Proofs.Probing
import Lifecycle.Proofs.Runs

/-!
# Store operations on a store in memory

What the operations of the store do when the content is in memory: a search has the outcome that the
contents give it (`performs_search`), a scan hands every document that the query finds to its step,
whatever the page size is (`performs_scan`), and a write performs itself (`performs_upsert`,
`performs_delete`).

The resolver then gives every index fields that stem from its mapping, also where its probe fails
(`performs_resolve`), so that a query is scoped as it should be (`performs_within`), and a scan
behind it goes through what the scoped query finds (`performs_scoped_scan`).
-/

namespace Lifecycle

variable {α β : Type} {deployment : Deployment} {world : World} {bare : Prop}

/-! ### Calls -/

/-- The world after a call is logged and the failure rules have seen it. -/
def World.called (world : World) (deployment : Deployment) (call : Call) : World :=
  { world with
    rules := (FailureRule.applyAll call world.rules).1
    calls :=
      if call.method.writes || deployment.traced then world.calls ++ [call] else world.calls }

namespace FailureRule

/-- A call takes from the rules none of their faults, and gives them no new one. -/
theorem exists_of_mem_applyAll {call : Call} {rules : List FailureRule} {rule : FailureRule}
    (h : rule ∈ (applyAll call rules).1) : ∃ earlier ∈ rules, earlier.fault = rule.fault := by
  induction rules with
  | nil => cases h
  | cons first rest ih =>
    rw [applyAll] at h
    split at h
    · rcases List.mem_cons.mp h with rfl | hrest
      · exact ⟨first, List.mem_cons_self, rfl⟩
      · exact ⟨rule, List.mem_cons_of_mem _ hrest, rfl⟩
    · rcases List.mem_cons.mp h with rfl | hrest
      · refine ⟨first, List.mem_cons_self, ?_⟩
        split <;> rfl
      · obtain ⟨earlier, hearlier, hfault⟩ := ih hrest
        exact ⟨earlier, List.mem_cons_of_mem _ hearlier, hfault⟩

/-- A call fails with the fault of one of the rules. -/
theorem exists_of_applyAll_eq_some {call : Call} {rules : List FailureRule} {fault : Fault}
    (h : (applyAll call rules).2 = some fault) : ∃ rule ∈ rules, rule.fault = fault := by
  induction rules with
  | nil => cases h
  | cons first rest ih =>
    rw [applyAll] at h
    split at h
    · exact ⟨first, List.mem_cons_self, Option.some.inj h⟩
    · obtain ⟨rule, hrule, hfault⟩ := ih h
      exact ⟨rule, List.mem_cons_of_mem _ hrule, hfault⟩

end FailureRule

theorem World.raises_of_called (deployment : Deployment) (call : Call) {fault : Fault}
    (h : (world.called deployment call).Raises fault) : world.Raises fault := by
  obtain ⟨rule, hrule, rfl⟩ := h
  exact FailureRule.exists_of_mem_applyAll hrule

namespace Work

theorem runOn_call (call : Call) :
    (Work.call call).runOn deployment world =
      (match (FailureRule.applyAll call world.rules).2 with
        | some fault => .error fault
        | none => .ok (),
       world.called deployment call) := by
  rcases hrules : FailureRule.applyAll call world.rules with ⟨rules, fault⟩
  simp only [Work.call, runOn_bind, runOn_read, runOn_get, hrules, runOn_set, World.called]
  cases fault <;> rfl

/-- A call that only reads has no effect on the contents. -/
theorem performs_call {call : Call} (h : call.method.writes = false) :
    (Work.call call).Performs deployment world [] (.ok ()) bare := by
  have hafter : world.After [] none (world.called deployment call) := by
    refine ⟨rfl, ?_, id, fun _ => World.raises_of_called deployment call⟩
    simp only [World.written, World.called, List.append_nil, Option.toList_none]
    split
    · simp [h]
    · rfl
  cases hfault : (FailureRule.applyAll call world.rules).2 with
  | none => exact .completed _ (by rw [runOn_call, hfault]) hafter
  | some fault =>
    have hraises := FailureRule.exists_of_applyAll_eq_some hfault
    exact .halted fault [] none _ ⟨fault, hraises, fun _ => rfl⟩ (by rw [runOn_call, hfault])
      (List.prefix_refl []) hafter

/-- A call that writes, with the write behind it, makes the write, or fails and leaves the
contents. -/
theorem runOn_write {call : Call} (h : call.method.writes = true) :
    ∃ later, ((do
        Work.call call
        modify fun world => { world with memory := world.memory.apply call } : Work Unit).runOn
          deployment world = (.ok (), later) ∧ world.After [call] none later) ∨
      ∃ fault, world.Raises fault ∧ (do
        Work.call call
        modify fun world => { world with memory := world.memory.apply call } : Work Unit).runOn
          deployment world = (.error fault, later) ∧ world.After [] (some call) later := by
  have hwritten : (world.called deployment call).written = world.written ++ [call] := by
    simp [World.written, World.called, h]
  cases hfault : (FailureRule.applyAll call world.rules).2 with
  | none =>
    refine ⟨{ world.called deployment call with memory := world.memory.apply call }, .inl ⟨?_, ?_⟩⟩
    · rw [runOn_bind, runOn_call, hfault]
      rfl
    · refine ⟨rfl, ?_, fun hprobed => hprobed.after_write rfl rfl,
        fun _ => World.raises_of_called deployment call⟩
      simpa [World.written] using hwritten
  | some fault =>
    refine ⟨world.called deployment call, .inr ⟨fault, ?_, ?_, ?_⟩⟩
    · exact FailureRule.exists_of_applyAll_eq_some hfault
    · rw [runOn_bind, runOn_call, hfault]
    · refine ⟨rfl, ?_, id, fun _ => World.raises_of_called deployment call⟩
      simpa using hwritten

theorem performs_write {call : Call} (h : call.method.writes = true) :
    (do
      Work.call call
      modify fun world => { world with memory := world.memory.apply call } : Work Unit).Performs
      deployment world [call] (.ok ()) bare := by
  obtain ⟨later, ⟨hrun, hafter⟩ | ⟨fault, hraises, hrun, hafter⟩⟩ := runOn_write h
  · exact .completed later hrun hafter
  · exact .halted fault [] (some call) later ⟨fault, hraises, fun _ => rfl⟩ hrun
      (List.prefix_refl _) hafter

end Work

namespace Store

/-! ### Single operations -/

/-- Writing a document makes the write, or fails and leaves the contents. -/
theorem runOn_upsert (hbackend : deployment.backend = .memory) (index id : String)
    (body : Table Json) :
    ∃ later, (upsert index id body).runOn deployment world = (.ok (), later) ∧
        world.After [.upsert index id body] none later ∨
      ∃ fault, (upsert index id body).runOn deployment world = (.error fault, later) ∧
        world.After [] (some (.upsert index id body)) later := by
  have hrun : (upsert index id body).runOn deployment world = (do
      Work.call (.upsert index id body)
      modify fun world => { world with memory := world.memory.apply (.upsert index id body) }
        : Work Unit).runOn deployment world := by
    rw [upsert, Work.runOn_bind, Work.runOn_read]
    dsimp only
    rw [hbackend]
    rfl
  rw [hrun]
  have hwrites : (Call.upsert index id body).method.writes = true := rfl
  obtain ⟨later, hwritten | ⟨fault, -, hfailed⟩⟩ := Work.runOn_write hwrites
  · exact ⟨later, .inl hwritten⟩
  · exact ⟨later, .inr ⟨fault, hfailed⟩⟩

theorem performs_upsert (hbackend : deployment.backend = .memory) (index id : String)
    (body : Table Json) :
    (upsert index id body).Performs deployment world [.upsert index id body] (.ok ()) bare := by
  rw [upsert]
  refine Work.performs_read.read_bind fun later hlater => ?_
  rw [hbackend]
  exact Work.performs_write rfl

theorem performs_delete (hbackend : deployment.backend = .memory) (index id : String) :
    (delete index id).Performs deployment world [.delete index id] (.ok ()) bare := by
  rw [delete]
  refine Work.performs_read.read_bind fun later hlater => ?_
  rw [hbackend]
  exact Work.performs_write rfl

/-- A search has the outcome that the contents give it. -/
theorem performs_search (hbackend : deployment.backend = .memory) (index : String)
    (asked : Search) :
    (search index asked).Performs deployment world [] (world.memory.search index asked) bare := by
  rw [search]
  refine Work.performs_read.read_bind fun later hlater => ?_
  rw [hbackend]
  refine (Work.performs_call rfl).read_bind fun called hcalled => ?_
  refine Work.performs_get.read_bind fun last hlast => ?_
  have hmemory : called.memory = world.memory := by
    rw [hcalled.memory_eq, hlater.memory_eq]
  rw [hmemory]
  exact Work.performs_ofExcept _

/-! ### Scans -/

/-- The order of the index leaves documents as they are. -/
theorem ordered_indexOrder (entries : List Query.Entry) :
    Query.ordered indexOrder entries = .ok entries := rfl

/-- The page of a list of documents that starts at an offset. -/
theorem slice_page (entries : List Query.Entry) (offset : Nat) {size : Int} (hsize : 0 ≤ size) :
    Query.slice entries offset (offset + size) = (entries.drop offset).take size.toNat := by
  have hstart : Query.position entries.length offset = min offset entries.length := by
    rw [Query.position, if_neg (by omega), Int.toNat_natCast]
  have hend : Query.position entries.length (offset + size) =
      min (offset + size.toNat) entries.length := by
    rw [Query.position, if_neg (by omega)]
    omega
  rw [Query.slice, hstart, hend]
  rcases Nat.le_total offset entries.length with hle | hle
  · have hlength : min (offset + size.toNat) entries.length - offset =
        min size.toNat (entries.drop offset).length := by
      rw [List.length_drop]
      omega
    rw [Nat.min_eq_left hle, hlength, ← List.take_eq_take_min]
  · rw [Nat.min_eq_right hle, List.drop_eq_nil_of_le hle, List.drop_length, List.take_nil,
      List.take_nil]

/-- Values that can all be had, had one after another. -/
theorem mapM_eq_map {ε : Type} {f : α → Except ε β} {g : α → β} {items : List α}
    (h : ∀ item ∈ items, f item = .ok (g item)) : items.mapM f = .ok (items.map g) := by
  induction items with
  | nil => rfl
  | cons item rest ih =>
    rw [List.mapM_cons, h item List.mem_cons_self, ih fun x hx => h x (List.mem_cons_of_mem _ hx)]
    rfl

/-- What a scan makes of a document: its storage id and the part of its body that is read. -/
def toHit (view : Table Json → Table Json) (entry : Query.Entry) : Hit := ⟨entry.1, view entry.2⟩

/-- A search shows what it finds, in its order, from an offset on and as much as fits. -/
theorem search_ordered {memory : Memory} {index : String} {asked : Search}
    {entries ordered : List Query.Entry} {view : Table Json → Table Json}
    (hfound : memory.found index asked.query = .ok entries)
    (hordered : Query.ordered asked.sort entries = .ok ordered)
    (hview : ∀ body, Query.projected asked.source body = .ok (view body))
    {offset : Nat} (hfirst : asked.first = offset) (hsize : 0 ≤ asked.size) :
    memory.search index asked =
      .ok ⟨entries.length, ((ordered.map (toHit view)).drop offset).take asked.size.toNat⟩ := by
  have hhits : ((ordered.drop offset).take asked.size.toNat).mapM (fun entry => do
      let source ← Query.projected asked.source entry.2
      pure (Hit.mk entry.1 source)) =
      .ok (((ordered.drop offset).take asked.size.toNat).map (toHit view)) := by
    refine mapM_eq_map fun entry _ => ?_
    rw [hview]
    rfl
  rw [Memory.search, hfound]
  dsimp only [bind, Except.bind]
  rw [hordered]
  dsimp only
  rw [hfirst, slice_page ordered offset hsize]
  refine (congrArg (Except.map (Page.mk entries.length)) hhits).trans ?_
  rw [List.map_take, List.map_drop]
  rfl

/-- A page of a scan has the documents from an offset on, as many as fit. -/
theorem search_pageFrom {memory : Memory} {index : String} {scanned : Scan}
    {entries : List Query.Entry} {view : Table Json → Table Json}
    (hfound : memory.found index scanned.query = .ok entries)
    (hview : ∀ body, Query.projected scanned.source body = .ok (view body))
    (hsize : 0 ≤ scanned.pageSize) (offset : Nat) :
    memory.search index (scanned.pageFrom offset) =
      .ok ⟨entries.length,
        ((entries.map (toHit view)).drop offset).take scanned.pageSize.toNat⟩ :=
  search_ordered hfound (ordered_indexOrder entries) hview rfl hsize

/-- From an offset on, a scan hands every document that its query finds to its step. -/
theorem performs_scanPages (hbackend : deployment.backend = .memory) {index : String}
    {scanned : Scan} {entries : List Query.Entry} {view : Table Json → Table Json}
    (hfound : world.memory.found index scanned.query = .ok entries)
    (hview : ∀ body, Query.projected scanned.source body = .ok (view body))
    (hsize : 0 < scanned.pageSize) (step : β → Hit → Except Fault β) (fuel offset : Nat)
    (hfuel : entries.length < fuel + offset) (result : β) :
    (scanPages index scanned step fuel offset result).Performs deployment world []
      (((entries.map (toHit view)).drop offset).foldlM step result) bare := by
  induction fuel generalizing world offset result with
  | zero =>
    have hnone : (entries.map (toHit view)).drop offset = [] := by
      apply List.drop_eq_nil_of_le
      rw [List.length_map]
      omega
    rw [hnone]
    exact Work.performs_pure result
  | succ fuel ih =>
    set hits := entries.map (toHit view) with hhits
    set page := (hits.drop offset).take scanned.pageSize.toNat with hpage
    have hlength : hits.length = entries.length := by rw [hhits, List.length_map]
    -- the documents from the offset on are those of this page and those behind it
    have hsplit : hits.drop offset = page ++ hits.drop (offset + page.length) := by
      rw [← List.drop_drop, hpage]
      rcases Nat.le_total scanned.pageSize.toNat (hits.drop offset).length with hle | hle
      · rw [List.length_take, Nat.min_eq_left hle, List.take_append_drop]
      · rw [List.take_of_length_le hle, List.drop_length, List.append_nil]
    have hsearch : (search index (scanned.pageFrom offset)).Performs deployment world []
        (.ok ⟨entries.length, page⟩) bare := by
      rw [← search_pageFrom hfound hview (Int.le_of_lt hsize)]
      exact performs_search hbackend index (scanned.pageFrom offset)
    rw [scanPages, hsplit, List.foldlM_append]
    refine hsearch.read_bind fun later hlater => ?_
    cases hstep : page.foldlM step result with
    | error fault =>
      exact (Work.performs_ofExcept (.error fault)).bind_error
    | ok next =>
      refine (Work.performs_ofExcept (.ok next)).read_bind fun last hlast => ?_
      have hmemory : last.memory = world.memory := by
        rw [hlast.memory_eq, hlater.memory_eq]
      show Work.Performs (if page.isEmpty ||
          decide (((offset + page.length : Nat) : Int) ≥ (entries.length : Int)) then pure next
        else scanPages index scanned step fuel (offset + page.length) next) deployment last []
        ((hits.drop (offset + page.length)).foldlM step next) bare
      split
      · rename_i hlast
        have hnone : hits.drop (offset + page.length) = [] := by
          rcases Bool.or_eq_true _ _ ▸ hlast with hempty | hend
          · have hnil : page = [] := List.isEmpty_iff.mp hempty
            rw [hpage, List.take_eq_nil_iff] at hnil
            rcases hnil with hzero | hnil
            · omega
            · rw [← List.drop_drop, hnil, List.drop_nil]
          · apply List.drop_eq_nil_of_le
            have := of_decide_eq_true hend
            omega
        rw [hnone]
        exact Work.performs_pure next
      · rename_i hmore
        have hnonempty : page ≠ [] := by
          intro hnil
          simp [hnil] at hmore
        have hpositive := List.length_pos_iff.mpr hnonempty
        exact ih (by rw [hmemory]; exact hfound) _ (by omega) next

/-- A scan hands every document that its query finds to its step, in the order of the index and
whatever the page size is. -/
theorem performs_scan (hbackend : deployment.backend = .memory) {index : String} {scanned : Scan}
    {test : Query.Entry → Bool} {view : Table Json → Table Json}
    (hfound : world.memory.found index scanned.query =
      .ok ((world.memory.documents index).filter test))
    (hview : ∀ body, Query.projected scanned.source body = .ok (view body))
    (hsize : 0 < scanned.pageSize) (start : β) (step : β → Hit → Except Fault β) :
    (scan index scanned start step).Performs deployment world []
      ((((world.memory.documents index).filter test).map (toHit view)).foldlM step start) bare := by
  rw [scan]
  refine Work.performs_get.read_bind fun later hlater => ?_
  have hmemory : later.memory = world.memory := hlater.memory_eq
  have hbound : ((world.memory.documents index).filter test).length <
      pageBound world index + 0 := by
    have := List.length_filter_le test (world.memory.documents index)
    rw [pageBound]
    omega
  exact performs_scanPages hbackend (by rw [hmemory]; exact hfound) hview hsize step _ 0 hbound
    start

end Store

/-! ### Space fields -/

namespace Resolver

theorem performs_fieldCapabilities (h : deployment.Standard) (index : String)
    (fields : List String) :
    (Store.fieldCapabilities index fields).Performs deployment world []
      (world.memory.fieldCapabilities index fields) bare := by
  rw [Store.fieldCapabilities]
  refine Work.performs_read.read_bind fun later hlater => ?_
  rw [h.backend]
  refine (Work.performs_call rfl).read_bind fun called hcalled => ?_
  rw [h.capabilities]
  refine Work.performs_get.read_bind fun last hlast => ?_
  have hmemory : called.memory = world.memory := by
    rw [hcalled.memory_eq, hlater.memory_eq]
  rw [hmemory]
  exact Work.performs_ofExcept _

/-- What is kept for an index is taken as it is. -/
theorem runOn_resolve_of_kept {index : String} {fields : SpaceFields}
    (h : world.spaceFields.get? index = some fields) :
    (resolve index).runOn deployment world = (.ok fields, world) := by
  have hcached : (cached? index).runOn deployment world =
      (.ok (world.spaceFields.get? index), world) := rfl
  rw [resolve, Work.runOn_bind, hcached, h]
  rfl

/-- An index that nothing is kept for is probed. -/
theorem runOn_resolve_of_none {index : String} (h : world.spaceFields.get? index = none) :
    (resolve index).runOn deployment world = (probe index).runOn deployment world := by
  have hcached : (cached? index).runOn deployment world =
      (.ok (world.spaceFields.get? index), world) := rfl
  rw [resolve, Work.runOn_bind, hcached, h]

/-- Whatever the store is asked ends in, a probe has fields by it, and these are kept. -/
theorem runOn_probe_of {index : String} {outcome : Except Fault Json} {later : World}
    (h : (Store.fieldCapabilities index deployment.settings.spaceFieldCandidates).runOn deployment
      world = (outcome, later)) :
    (probe index).runOn deployment world =
      (.ok (ofOutcome deployment.settings.spaceFieldCandidates outcome),
        { later with
          spaceFields := later.spaceFields.put index
            (ofOutcome deployment.settings.spaceFieldCandidates outcome) }) := by
  rw [probe, Work.runOn_settings_bind, Work.runOn_bind, Work.runOn_attempt, h]
  rfl

variable (world) in
/-- A probe has an outcome whether it fails or not, and what it finds is kept. -/
theorem runOn_probe (h : deployment.Standard) (index : String) :
    ∃ fields later, Scope.Probed (world.memory.mappings.get? index) fields.search ∧
      (probe index).runOn deployment world = (.ok fields, later) ∧ world.After [] none later := by
  set candidates := deployment.settings.spaceFieldCandidates with hcandidates
  have hperforms : (Store.fieldCapabilities index candidates).Performs deployment world []
      (world.memory.fieldCapabilities index candidates) := performs_fieldCapabilities h index _
  obtain ⟨outcome, probed, hrun, houtcome, hprobed⟩ := hperforms.run_of_read
  have hfields : Scope.Probed (world.memory.mappings.get? index)
      (ofOutcome candidates outcome).search := by
    rw [hcandidates, h.candidates] at houtcome ⊢
    exact probed_ofOutcome houtcome
  refine ⟨_, _, hfields, runOn_probe_of hrun,
    ⟨hprobed.memory, hprobed.written, ?_, fun fault => hprobed.raises fault⟩⟩
  intro hworld other hother kept hget
  rw [Table.get?_put] at hget
  split at hget
  · rename_i heq
    cases hget
    rw [← heq, hprobed.memory_eq]
    exact hfields
  · exact hprobed.probed hworld other hother kept hget

/-- The space fields of an index are known or found by a probe; either way they stem from its
mapping. -/
theorem performs_resolve (h : deployment.Standard) (hworld : world.Probed) {index : String}
    (hindex : index ∈ contentIndexes) :
    ∃ fields, Scope.Probed (world.memory.mappings.get? index) fields.search ∧
      (resolve index).Performs deployment world [] (.ok fields) bare := by
  cases hkept : world.spaceFields.get? index with
  | some fields =>
    exact ⟨fields, hworld index hindex fields hkept,
      .completed world (runOn_resolve_of_kept hkept) (.refl world)⟩
  | none =>
    obtain ⟨fields, later, hfields, hrun, hafter⟩ := runOn_probe world h index
    exact ⟨fields, hfields, .completed later ((runOn_resolve_of_none hkept).trans hrun) hafter⟩

/-- Work behind the scoping of a query gets one that is scoped by fields that were probed. -/
theorem performs_within (h : deployment.Standard) (hworld : world.Probed) {index : String}
    (hindex : index ∈ contentIndexes) (space : Space) {query : Json} {narrowed : List String → Json}
    (happly : ∀ fields, Scope.apply query (some space.name) fields = .ok (narrowed fields))
    {next : Json → Work β} {script : List Call} {outcome : Except Fault β}
    (hnext : ∀ fields later, Scope.Probed (world.memory.mappings.get? index) fields →
      later.memory = world.memory →
      (next (narrowed fields)).Performs deployment later script outcome bare) :
    (within index space query >>= next).Performs deployment world script outcome bare := by
  have hresolved : ∃ fields, Scope.Probed (world.memory.mappings.get? index) fields.search ∧
      (resolve index).Performs deployment world [] (.ok fields) bare :=
    performs_resolve h hworld hindex
  obtain ⟨fields, hprobed, hresolve⟩ := hresolved
  have hname : space.name ≠ "" := by cases space <;> decide
  have hwithin : (within index space query).Performs deployment world []
      (.ok (narrowed fields.search)) bare := by
    rw [within, scopedQuery]
    · refine hresolve.read_bind fun later _ => ?_
      rw [happly]
      exact Work.performs_ofExcept _
    · exact hname
  exact hwithin.read_bind fun later hlater => hnext _ later hprobed hlater.memory_eq

/-- Work behind a query that is scoped on one of the indexes of the settings. -/
theorem performs_scoped (h : deployment.Standard) (hworld : world.Probed)
    {index : ContentSettings → String} {name : String} (hindex : index deployment.settings = name)
    (hname : name ∈ contentIndexes) (space : Space) {query : Json} {narrowed : List String → Json}
    (happly : ∀ fields, Scope.apply query (some space.name) fields = .ok (narrowed fields))
    {next : ContentSettings → Json → Work β} {script : List Call} {outcome : Except Fault β}
    (hnext : ∀ fields later, Scope.Probed (world.memory.mappings.get? name) fields →
      later.memory = world.memory →
      (next deployment.settings (narrowed fields)).Performs deployment later script outcome bare) :
    (Work.settings >>= fun settings =>
      within (index settings) space query >>= next settings).Performs deployment world script
        outcome bare := by
  refine Work.performs_settings.read_bind fun settled hsettled => ?_
  rw [hindex]
  refine performs_within h (hsettled.probed hworld) hname space happly
    fun fields later hfields hlater => ?_
  rw [hsettled.memory_eq] at hfields
  exact hnext fields later hfields (hlater.trans hsettled.memory_eq)

/-- A scan behind a query that is scoped goes through the documents that the query finds. -/
theorem performs_scoped_scan (h : deployment.Standard) (hworld : world.Probed)
    {index : ContentSettings → String} {name : String} (hindex : index deployment.settings = name)
    (hname : name ∈ contentIndexes) (space : Space) {query source : Json}
    {narrowed : List String → Json}
    (happly : ∀ fields, Scope.apply query (some space.name) fields = .ok (narrowed fields))
    {test : Query.Entry → Bool} {view : Table Json → Table Json}
    (hfound : ∀ fields, Scope.Probed (world.memory.mappings.get? name) fields →
      world.memory.found name (narrowed fields) =
        .ok ((world.memory.documents name).filter test))
    (hview : ∀ body, Query.projected source body = .ok (view body)) (start : β)
    (step : β → Hit → Except Fault β) :
    (Work.settings >>= fun settings => within (index settings) space query >>= fun query =>
      Store.scan (index settings) { query, source, pageSize := settings.pageSize } start
        step).Performs deployment world []
      ((((world.memory.documents name).filter test).map (Store.toHit view)).foldlM step start)
      bare := by
  refine performs_scoped h hworld hindex hname space happly fun fields later hfields hlater => ?_
  have hfinds := hfound fields hfields
  rw [← hlater] at hfinds ⊢
  rw [hindex]
  exact Store.performs_scan h.backend hfinds hview h.pageSize start step

end Resolver

end Lifecycle
