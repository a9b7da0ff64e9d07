import Lifecycle.Proofs.Agreement
import Lifecycle.Proofs.ScopedSearches

/-!
# Scans page by page

What a scan of an index in memory does, search by search. Whether the source of a scan can be read
does not depend on the document (`Query.projected_eq`), so that a scan ends as one search for
everything does, with the step taken on all that is found (`Store.gathered`), however many documents
fit on a page. It asks for the pages `Scan.pages` in order, as far as no fault ends it
(`Store.runOn_scanPages`); the number of its searches is that of the pages, and never its bound.
-/

namespace Lifecycle

variable {β : Type} {deployment : Deployment} {world : World}

/-! ### Reading parts of bodies -/

namespace Query

/-- What a source asks for of any body. -/
def viewOf (source : Json) : Except Fault (Table Json → Table Json) :=
  match included source with
  | .null => .ok id
  | value => do
    let items ← itemsOf value
    let found ← paths items
    pure fun body => partsAt body found

/-- A source can be read of all bodies or of none. -/
theorem projected_eq (source : Json) (body : Table Json) :
    projected source body = (viewOf source).map fun view => view body := by
  have hasked : ∀ value, (do
        let items ← itemsOf value
        let found ← paths items
        pure (partsAt body found) : Except Fault (Table Json)) =
      (do
        let items ← itemsOf value
        let found ← paths items
        pure fun body => partsAt body found : Except Fault (Table Json → Table Json)).map
          fun view => view body := by
    intro value
    cases itemsOf value with
    | error fault => rfl
    | ok items =>
      show (paths items >>= fun found => pure (partsAt body found)) =
        (paths items >>= fun found => pure fun body => partsAt body found).map fun view => view body
      cases paths items <;> rfl
  unfold projected viewOf
  cases included source with
  | null => rfl
  | _ => exact hasked _

end Query

/-! ### Documents found -/

namespace Memory

/-- Whether a query holds of a document of an index. -/
def finds (memory : Memory) (index : String) (query : Json) (entry : Query.Entry) : Bool :=
  match Query.holds ⟨memory.mapping index, entry.1, entry.2⟩ false query with
  | .ok found => found
  | .error _ => false

/-- A query that is supported finds the documents that it holds of, in the order of the index. -/
theorem found_eq_filter {memory : Memory} {index : String} {query : Json}
    {entries : List Query.Entry} (h : memory.found index query = .ok entries) :
    entries = (memory.documents index).filter (memory.finds index query) := by
  have hfilter : memory.found index query =
      .ok ((memory.documents index).filter (memory.finds index query)) := by
    refine filterM_eq_filter _ _ _ fun entry hentry => ?_
    obtain ⟨found, hfound⟩ := exists_of_filterM_eq_ok h entry hentry
    rw [hfound, finds, hfound]
  exact Except.ok.inj (h.symm.trans hfilter)

end Memory

/-! ### Logs -/

/-- The world with some calls that only read logged, if such calls are. -/
def World.logged (world : World) (deployment : Deployment) (calls : List Call) : World :=
  { world with calls := if deployment.traced then world.calls ++ calls else world.calls }

/-- No search is made to fail. -/
def World.SearchesPass (world : World) : Prop := ∀ rule ∈ world.rules, rule.method ≠ .search

namespace World

theorem logged_logged (world : World) (deployment : Deployment) (calls more : List Call) :
    (world.logged deployment calls).logged deployment more =
      world.logged deployment (calls ++ more) := by
  unfold logged
  cases deployment.traced
  · rfl
  · simp

end World

/-- A call passes rules that are about other kinds of calls. -/
theorem FailureRule.applyAll_of_ne {call : Call} {rules : List FailureRule}
    (h : ∀ rule ∈ rules, rule.method ≠ call.method) : applyAll call rules = (rules, none) := by
  induction rules with
  | nil => rfl
  | cons rule rest ih =>
    rw [applyAll_cons (concerns_of_ne (h rule List.mem_cons_self)),
      ih fun other hother => h other (List.mem_cons_of_mem _ hother)]

namespace Store

/-- A search that cannot be made to fail has the outcome that the contents give it. -/
theorem runOn_search_passed (hbackend : deployment.backend = .memory) (hpass : world.SearchesPass)
    (index : String) (asked : Search) :
    (search index asked).runOn deployment world =
      (world.memory.search index asked, world.logged deployment [.search index asked]) := by
  have hrules : FailureRule.applyAll (.search index asked) world.rules = (world.rules, none) :=
    FailureRule.applyAll_of_ne hpass
  rw [runOn_search hbackend, World.called, hrules]
  rfl

/-! ### Pages -/

/-- The pages of a scan that finds some number of documents: one at least, and no empty one
besides. -/
def Scan.pages (scan : Scan) (total : Nat) : List Search :=
  (List.range ((total - 1) / scan.pageSize.toNat + 1)).map fun i =>
    scan.pageFrom (i * scan.pageSize.toNat)

theorem Scan.length_pages_le (scan : Scan) (total : Nat) :
    (scan.pages total).length ≤ total / scan.pageSize.toNat + 1 := by
  rw [pages, List.length_map, List.length_range]
  exact Nat.succ_le_succ (Nat.div_le_div_right (Nat.sub_le total 1))

theorem Scan.drop_pages (scan : Scan) {total i : Nat}
    (h : i ≤ (total - 1) / scan.pageSize.toNat) :
    (scan.pages total).drop i =
      scan.pageFrom (i * scan.pageSize.toNat) :: (scan.pages total).drop (i + 1) := by
  have hlength : i < (scan.pages total).length := by
    rw [pages, List.length_map, List.length_range]
    omega
  rw [List.drop_eq_getElem_cons hlength]
  congr 1
  simp [pages]

theorem Scan.drop_pages_last (scan : Scan) (total : Nat) :
    (scan.pages total).drop ((total - 1) / scan.pageSize.toNat + 1) = [] := by
  have hlength : (scan.pages total).length = (total - 1) / scan.pageSize.toNat + 1 := by
    rw [pages, List.length_map, List.length_range]
  exact List.drop_eq_nil_of_le (Nat.le_of_eq hlength)

/-- The documents that a query found as hits, with what a source asks for of each. -/
def hitsOf (source : Json) (entries : List Query.Entry) : Except Fault (List Hit) :=
  entries.mapM fun entry => do
    let source ← Query.projected source entry.2
    pure (Hit.mk entry.1 source)

/-- What a scan makes of the documents that its query found. -/
def gathered (source : Json) (step : β → Hit → Except Fault β) (start : β)
    (entries : List Query.Entry) : Except Fault β := do
  let hits ← hitsOf source entries
  hits.foldlM step start

section

variable {source : Json} {step : β → Hit → Except Fault β} {start : β}
  {view : Table Json → Table Json} {page entries : List Query.Entry}

theorem hitsOf_of_view (h : Query.viewOf source = .ok view) (entries : List Query.Entry) :
    hitsOf source entries = .ok (entries.map (toHit view)) := by
  refine mapM_eq_map fun entry _ => ?_
  rw [Query.projected_eq, h]
  rfl

/-- A source that cannot be read is noticed at the first document. -/
theorem hitsOf_cons_of_fault {fault : Fault} (h : Query.viewOf source = .error fault)
    (entry : Query.Entry) (rest : List Query.Entry) :
    hitsOf source (entry :: rest) = .error fault := by
  rw [hitsOf, List.mapM_cons, Query.projected_eq, h]
  rfl

theorem length_of_hitsOf {hits : List Hit} (h : hitsOf source entries = .ok hits) :
    hits.length = entries.length := by
  cases hview : Query.viewOf source with
  | ok view =>
    rw [hitsOf_of_view hview] at h
    rw [← Except.ok.inj h, List.length_map]
  | error fault =>
    cases entries with
    | nil => rw [← Except.ok.inj h]; rfl
    | cons entry rest =>
      rw [hitsOf_cons_of_fault hview] at h
      cases h

/-- What is gathered of a page and what is behind it is gathered one after the other. -/
theorem gathered_append (page rest : List Query.Entry) :
    gathered source step start (page ++ rest) =
      gathered source step start page >>= fun next => gathered source step next rest := by
  unfold gathered
  cases hview : Query.viewOf source with
  | ok view =>
    simp only [hitsOf_of_view hview, List.map_append]
    exact List.foldlM_append
  | error fault =>
    cases page with
    | nil => rfl
    | cons entry others =>
      rw [List.cons_append, hitsOf_cons_of_fault hview, hitsOf_cons_of_fault hview]
      rfl

/-- The page that a scan asks for from an offset on. -/
theorem search_page {memory : Memory} {index : String} {scanned : Scan}
    (hfound : memory.found index scanned.query = .ok entries) (hsize : 0 ≤ scanned.pageSize)
    (offset : Nat) :
    memory.search index (scanned.pageFrom offset) =
      (hitsOf scanned.source ((entries.drop offset).take scanned.pageSize.toNat)).map
        (Page.mk entries.length) := by
  rw [← slice_page entries offset hsize, Memory.search, Scan.pageFrom, hfound]
  show (do
    let ordered ← Query.ordered indexOrder entries
    let hits ← hitsOf scanned.source
      (Query.slice ordered offset (offset + scanned.pageSize))
    pure (Page.mk entries.length hits) : Except Fault Page) = _
  rw [ordered_indexOrder]
  show (do
    let hits ← hitsOf scanned.source (Query.slice entries offset (offset + scanned.pageSize))
    pure (Page.mk entries.length hits) : Except Fault Page) = _
  cases hitsOf scanned.source (Query.slice entries offset (offset + scanned.pageSize)) <;> rfl

end

/-! ### Scans -/

/-- One page of a scan: it is searched for and gathered, and the pages behind it are gone through
unless it is the last one. -/
theorem runOn_scanPages_succ (hbackend : deployment.backend = .memory) {index : String}
    {scanned : Scan} {entries : List Query.Entry} (hsize : 0 ≤ scanned.pageSize)
    (hpass : world.SearchesPass)
    (hfound : world.memory.found index scanned.query = .ok entries)
    (step : β → Hit → Except Fault β) (fuel offset : Nat) (result : β) :
    let page := (entries.drop offset).take scanned.pageSize.toNat
    let searched := world.logged deployment [.search index (scanned.pageFrom offset)]
    (scanPages index scanned step (fuel + 1) offset result).runOn deployment world =
      match gathered scanned.source step result page with
      | .error fault => (.error fault, searched)
      | .ok next =>
        if page = [] ∨ entries.length ≤ offset + page.length then (.ok next, searched)
        else (scanPages index scanned step fuel (offset + page.length) next).runOn deployment
          searched := by
  intro page searched
  rw [scanPages, Work.runOn_bind, runOn_search_passed hbackend hpass, search_page hfound hsize,
    gathered]
  cases hhits : hitsOf scanned.source page with
  | error fault => rfl
  | ok hits =>
    have hlength : hits.length = page.length := length_of_hitsOf hhits
    have hstop : (hits.isEmpty ||
        decide (((offset + hits.length : Nat) : Int) ≥ (entries.length : Int))) = true ↔
        page = [] ∨ entries.length ≤ offset + page.length := by
      rw [Bool.or_eq_true, decide_eq_true_eq, List.isEmpty_iff_length_eq_zero, hlength,
        List.length_eq_zero_iff, ge_iff_le, Int.ofNat_le]
    show (Work.ofExcept (hits.foldlM step result) >>= fun next =>
      if hits.isEmpty || decide (((offset + hits.length : Nat) : Int) ≥ (entries.length : Int))
      then pure next
      else scanPages index scanned step fuel (offset + hits.length) next).runOn deployment
        searched = match hits.foldlM step result with
      | .error fault => (.error fault, searched)
      | .ok next => _
    rw [Work.runOn_bind, Work.runOn_ofExcept]
    cases hits.foldlM step result with
    | error fault => rfl
    | ok next =>
      dsimp only
      by_cases hlast : page = [] ∨ entries.length ≤ offset + page.length
      · rw [if_pos (hstop.mpr hlast), if_pos hlast]
        rfl
      · rw [if_neg (hstop.not.mpr hlast), if_neg hlast, hlength]

/-- The searches of a scan from one of its pages on, with what comes of it: all pages are asked for
unless a fault ends the scan, and any bound that leaves that many does. -/
theorem runOn_scanPages (hbackend : deployment.backend = .memory) {index : String} {scanned : Scan}
    {entries : List Query.Entry} (hsize : 0 < scanned.pageSize) (step : β → Hit → Except Fault β)
    {i more : Nat} (hmore : i + more = (entries.length - 1) / scanned.pageSize.toNat) (result : β)
    (hpass : world.SearchesPass)
    (hfound : world.memory.found index scanned.query = .ok entries) :
    let outcome := gathered scanned.source step result
      (entries.drop (i * scanned.pageSize.toNat))
    ∃ made, made <+: (scanned.pages entries.length).drop i ∧
      (∀ value, outcome = .ok value → made = (scanned.pages entries.length).drop i) ∧
      ∀ fuel, more < fuel →
        (scanPages index scanned step fuel (i * scanned.pageSize.toNat) result).runOn deployment
          world = (outcome, world.logged deployment (made.map (.search index))) := by
  intro outcome
  induction more using Nat.strongRecOn generalizing i result world with
  | ind more ih =>
    set size := scanned.pageSize.toNat with hsizeNat
    set offset := i * size with hoffset
    set page := (entries.drop offset).take size with hpageDef
    set searched := world.logged deployment [.search index (scanned.pageFrom offset)]
      with hsearched
    have hpositive : 0 < size := by omega
    have hpage : i ≤ (entries.length - 1) / size := by omega
    have hhere : offset ≤ entries.length - 1 := (Nat.le_div_iff_mul_le hpositive).mp hpage
    have hbehind : (i + 1) * size = offset + size := Nat.succ_mul i size
    have hlength : page.length = min size (entries.length - offset) := by
      rw [hpageDef, List.length_take, List.length_drop]
    have houtcome : outcome = gathered scanned.source step result page >>= fun next =>
        gathered scanned.source step next (entries.drop (offset + size)) := by
      rw [← gathered_append, ← List.drop_drop, hpageDef, List.take_append_drop]
    have hpages := scanned.drop_pages hpage
    have hfirst : [scanned.pageFrom offset] <+: (scanned.pages entries.length).drop i := by
      rw [hpages]
      exact List.prefix_append [_] _
    have hrun := fun fuel => runOn_scanPages_succ hbackend (Int.le_of_lt hsize) hpass hfound step
      fuel offset result
    dsimp only at hrun
    rw [houtcome]
    cases hgathered : gathered scanned.source step result page with
    | error fault =>
      refine ⟨[scanned.pageFrom offset], hfirst, nofun, fun fuel hfuel => ?_⟩
      obtain ⟨fuel, rfl⟩ : ∃ left, fuel = left + 1 := ⟨fuel - 1, by omega⟩
      rw [hrun, ← hpageDef, hgathered]
      rfl
    | ok next =>
      cases more with
      | zero =>
        -- the last page reaches the end of what is found
        have hend : entries.length - 1 < (i + 1) * size :=
          (Nat.div_lt_iff_lt_mul hpositive).mp (by omega)
        have hnone : entries.drop (offset + size) = [] := List.drop_eq_nil_of_le (by omega)
        have hstop : page = [] ∨ entries.length ≤ offset + page.length := .inr (by omega)
        refine ⟨[scanned.pageFrom offset], hfirst, fun _ _ => ?_, fun fuel hfuel => ?_⟩
        · rw [hpages, show i + 1 = (entries.length - 1) / size + 1 by omega,
            scanned.drop_pages_last]
        · obtain ⟨fuel, rfl⟩ : ∃ left, fuel = left + 1 := ⟨fuel - 1, by omega⟩
          rw [hrun, ← hpageDef, hgathered, hnone]
          exact if_pos hstop
      | succ more =>
        have hmiddle : (i + 1) * size ≤ entries.length - 1 :=
          (Nat.le_div_iff_mul_le hpositive).mp (by omega)
        have hfull : page.length = size := by omega
        have hgo : ¬(page = [] ∨ entries.length ≤ offset + page.length) := by
          rw [← List.length_eq_zero_iff]
          omega
        have hpass' : searched.SearchesPass := hpass
        obtain ⟨made, hmade, hall, hrest⟩ := ih more (by omega) (by omega : i + 1 + more = _) next
          hpass' hfound
        rw [hbehind] at hall hrest
        refine ⟨scanned.pageFrom offset :: made, ?_, fun value hvalue => ?_, fun fuel hfuel => ?_⟩
        · rw [hpages]
          exact (List.prefix_cons_inj _).mpr hmade
        · rw [hpages, hall value hvalue]
        · obtain ⟨fuel, rfl⟩ : ∃ left, fuel = left + 1 := ⟨fuel - 1, by omega⟩
          rw [hrun, ← hpageDef, hgathered]
          refine (if_neg hgo).trans ?_
          rw [hfull, hrest fuel (by omega), hsearched, World.logged_logged]
          rfl

/-- A scan ends as its step taken on all that its query finds, and its bound does not matter. -/
theorem runOn_scan (hbackend : deployment.backend = .memory) {index : String} {scanned : Scan}
    {entries : List Query.Entry} (hsize : 0 < scanned.pageSize) (step : β → Hit → Except Fault β)
    (start : β) (hpass : world.SearchesPass)
    (hfound : world.memory.found index scanned.query = .ok entries) :
    let outcome := gathered scanned.source step start entries
    ∃ made, made <+: scanned.pages entries.length ∧
      (∀ value, outcome = .ok value → made = scanned.pages entries.length) ∧
      (scan index scanned start step).runOn deployment world =
        (outcome, world.logged deployment (made.map (.search index))) ∧
      ∀ fuel, pageBound world index ≤ fuel →
        (scanPages index scanned step fuel 0 start).runOn deployment world =
          (scan index scanned start step).runOn deployment world := by
  obtain ⟨made, hmade, hall, hrun⟩ := runOn_scanPages hbackend hsize step
    (Nat.zero_add ((entries.length - 1) / scanned.pageSize.toNat)) start hpass hfound
  rw [Nat.zero_mul, List.drop_zero, List.drop_zero] at *
  have hlength : entries.length ≤ (world.memory.documents index).length := by
    rw [Memory.found_eq_filter hfound]
    exact List.length_filter_le _ _
  have hbound : (entries.length - 1) / scanned.pageSize.toNat < pageBound world index := by
    have := Nat.div_le_self (entries.length - 1) scanned.pageSize.toNat
    rw [pageBound]
    omega
  have hscan : (scan index scanned start step).runOn deployment world =
      (scanPages index scanned step (pageBound world index) 0 start).runOn deployment world := by
    rw [scan, Work.runOn_bind, Work.runOn_get]
  refine ⟨made, hmade, hall, ?_, fun fuel hfuel => ?_⟩
  · rw [hscan, hrun _ hbound]
  · rw [hscan, hrun _ hbound, hrun fuel (by omega)]

/-- A query that is not supported ends a scan with its first search. -/
theorem runOn_scan_unsupported (hbackend : deployment.backend = .memory) {index : String}
    {scanned : Scan} {fault : Fault} (step : β → Hit → Except Fault β) (start : β)
    (hpass : world.SearchesPass)
    (hfound : world.memory.found index scanned.query = .error fault) :
    (scan index scanned start step).runOn deployment world =
      (.error fault, world.logged deployment [.search index (scanned.pageFrom 0)]) := by
  have hsearch : world.memory.search index (scanned.pageFrom 0) = .error fault := by
    rw [Memory.search, Scan.pageFrom, hfound]
    rfl
  rw [scan, Work.runOn_bind, Work.runOn_get]
  show (scanPages index scanned step (_ + 1) 0 start).runOn deployment world = _
  rw [scanPages, Work.runOn_bind, runOn_search_passed hbackend hpass, hsearch]

/-! ### One search for everything -/

/-- The search for all that a scan goes through, of some size. -/
def Scan.whole (scan : Scan) (size : Int) : Search :=
  { query := scan.query, size, source := scan.source }

theorem search_whole {memory : Memory} {index : String} {scanned : Scan}
    {entries : List Query.Entry} (hfound : memory.found index scanned.query = .ok entries)
    {size : Int} (hsize : ((memory.documents index).length : Int) ≤ size) :
    memory.search index (scanned.whole size) =
      (hitsOf scanned.source entries).map (Page.mk entries.length) := by
  have hlength : entries.length ≤ (memory.documents index).length := by
    rw [Memory.found_eq_filter hfound]
    exact List.length_filter_le _ _
  have hslice : Query.slice entries 0 (0 + size) = entries := by
    have hpage : Query.slice entries 0 (0 + size) = (entries.drop 0).take size.toNat :=
      slice_page entries 0 (by omega)
    rw [hpage, List.drop_zero, List.take_of_length_le (by omega)]
  rw [Memory.search, Scan.whole, hfound]
  show (do
    let hits ← hitsOf scanned.source (Query.slice entries 0 (0 + size))
    pure (Page.mk entries.length hits) : Except Fault Page) = _
  rw [hslice]
  cases hitsOf scanned.source entries <;> rfl

theorem foldlM_concat (hits found : List Hit) :
    hits.foldlM (fun hits hit => (.ok (hits ++ [hit]) : Except Fault (List Hit))) found =
      .ok (found ++ hits) := by
  induction hits generalizing found with
  | nil => rw [List.append_nil]; rfl
  | cons hit rest ih =>
    rw [List.foldlM_cons, List.append_cons found hit rest]
    exact ih (found ++ [hit])

theorem gathered_concat (source : Json) (entries : List Query.Entry) :
    gathered source (fun hits hit => .ok (hits ++ [hit])) [] entries = hitsOf source entries := by
  rw [gathered]
  cases hitsOf source entries with
  | error fault => rfl
  | ok hits => exact foldlM_concat hits []

/-- The hits of documents are those of each of them, in their order. -/
theorem forall₂_of_hitsOf {source : Json} {entries : List Query.Entry} {hits : List Hit}
    (h : hitsOf source entries = .ok hits) :
    List.Forall₂ (fun hit entry => hit.id = entry.1 ∧
      Query.projected source entry.2 = .ok hit.source) hits entries := by
  cases hview : Query.viewOf source with
  | ok view =>
    rw [hitsOf_of_view hview] at h
    rw [← Except.ok.inj h, List.forall₂_map_left_iff, List.forall₂_same]
    intro entry _
    refine ⟨rfl, ?_⟩
    rw [Query.projected_eq, hview]
    rfl
  | error fault =>
    cases entries with
    | nil => rw [← Except.ok.inj h]; exact .nil
    | cons entry rest =>
      rw [hitsOf_cons_of_fault hview] at h
      cases h

/-- What a scan for all documents that a query finds does, whatever the size of its pages is: it
ends as one search for everything does, with each document that the query holds of once and in the
order of the index. It makes no more searches than there are pages to fill and one, as a log of all
calls shows, and does nothing else. No bound of pages that is large enough changes that. -/
structure Scan.Exhausts (deployment : Deployment) (world : World) (index : String)
    (scanned : Scan) : Prop where
  ends : ∀ size : Int, (world.memory.documents index).length ≤ size →
    ((scanAll index scanned).runOn deployment world).1 =
      (world.memory.search index (scanned.whole size)).map Page.hits
  each : ∀ hits, ((scanAll index scanned).runOn deployment world).1 = .ok hits →
    List.Forall₂ (fun hit entry => hit.id = entry.1 ∧
        Query.projected scanned.source entry.2 = .ok hit.source) hits
      ((world.memory.documents index).filter (world.memory.finds index scanned.query))
  searches : ∃ made : List Search,
    ((scanAll index scanned).runOn { deployment with traced := true } world).2.calls =
      world.calls ++ made.map (.search index) ∧
    made.length ≤ ((world.memory.documents index).filter
      (world.memory.finds index scanned.query)).length / scanned.pageSize.toNat + 1
  leaves : ∃ calls, ((scanAll index scanned).runOn deployment world).2 =
    { world with calls := world.calls ++ calls }
  bound : ∀ fuel, pageBound world index ≤ fuel →
    (scanPages index scanned (fun hits hit => .ok (hits ++ [hit])) fuel 0 []).runOn deployment
      world = (scanAll index scanned).runOn deployment world

theorem exhausts_scanAll (hbackend : deployment.backend = .memory) {index : String}
    {scanned : Scan} {entries : List Query.Entry} (hsize : 0 < scanned.pageSize)
    (hpass : world.SearchesPass)
    (hfound : world.memory.found index scanned.query = .ok entries) :
    scanned.Exhausts deployment world index := by
  have hscan := fun (deployment : Deployment) (hbackend : deployment.backend = .memory) =>
    runOn_scan hbackend hsize (fun hits hit => .ok (hits ++ [hit])) [] hpass hfound
  simp only [gathered_concat] at hscan
  have hentries := Memory.found_eq_filter hfound
  obtain ⟨made, -, -, hrun, hbound⟩ := hscan deployment hbackend
  refine ⟨fun size hwhole => ?_, fun hits hhits => ?_, ?_, ?_, hbound⟩
  · rw [scanAll, hrun, search_whole hfound hwhole]
    cases hitsOf scanned.source entries <;> rfl
  · rw [scanAll, hrun] at hhits
    rw [← hentries]
    exact forall₂_of_hitsOf hhits
  · obtain ⟨made, hmade, -, hrun, -⟩ := hscan { deployment with traced := true } hbackend
    refine ⟨made, ?_, ?_⟩
    · rw [scanAll, hrun]
      rfl
    · rw [← hentries]
      exact Nat.le_trans hmade.length_le (scanned.length_pages_le entries.length)
  · rw [scanAll, hrun, World.logged]
    cases deployment.traced with
    | false => exact ⟨[], by rw [List.append_nil]; rfl⟩
    | true => exact ⟨_, rfl⟩

end Store

end Lifecycle
