import Mathlib.Data.List.Infix
import Lifecycle.Proofs.LowerCasing
import Lifecycle.Proofs.Names
import Lifecycle.Proofs.Projections
import Lifecycle.Proofs.Reads
import Lifecycle.Proofs.ScopedSearches

/-!
# Decoders to choose from

The decoders of a space that can be its root are shown page by page, and may be searched for by a
text. The text, trimmed, is a term that a decoder has in its name, without regard to casing, or as
its id; the query for that is no fault on a document (`Gate.holds_candidateQuery`), so that scoped
to a space it finds the decoders of the space that the term asks for (`Memory.found_candidates`).

What is found is sorted by name. Sorting by a field leaves what does not differ in its text in the
order of the index, and puts what does not have the field last (`Query.pairwise_orderedBy`). This
tells the list (`Gate.Listed.unique`), and every page has the candidates of the list from its offset
on, as many as fit (`Gate.performs_candidates`). From this follows the main statement
(`Gate.pages_tile`).
-/

namespace Lifecycle

/-! ### Sorted documents -/

namespace Query

variable {field : String} {entries : List Entry}

/-- A document stands before another one when both are ordered by a field: by the texts of their
values, and before those without the field; what the texts do not tell apart keeps its order. -/
def Precedes (field : String) (entries : List Entry) (first second : Entry) : Prop :=
  match sortKey? field first, sortKey? field second with
  | some key, some other => key < other ∨ key = other ∧ [first, second].Sublist entries
  | some _, none => True
  | none, some _ => False
  | none, none => [first, second].Sublist entries

instance (field : String) (entries : List Entry) (first second : Entry) :
    Decidable (Precedes field entries first second) :=
  match hfirst : sortKey? field first, hsecond : sortKey? field second with
  | some key, some other =>
    decidable_of_iff (key < other ∨ key = other ∧ [first, second].Sublist entries)
      (by rw [Precedes, hfirst, hsecond])
  | some _, none => .isTrue (by rw [Precedes, hfirst, hsecond]; trivial)
  | none, some _ => .isFalse (by rw [Precedes, hfirst, hsecond]; exact id)
  | none, none => decidable_of_iff ([first, second].Sublist entries)
      (by rw [Precedes, hfirst, hsecond])

/-- Of two documents, each once in a list, only one stands before the other. -/
theorem eq_of_sublists {first second : Entry} (hdistinct : entries.Nodup)
    (h : [first, second].Sublist entries) (h' : [second, first].Sublist entries) :
    first = second := by
  induction entries with
  | nil => cases h
  | cons entry rest ih =>
    obtain ⟨hfresh, hrest⟩ := List.nodup_cons.mp hdistinct
    cases h with
    | cons _ h =>
      cases h' with
      | cons _ h' => exact ih hrest h h'
      | cons_cons _ h' => exact absurd (h.subset (by simp)) hfresh
    | cons_cons _ h =>
      cases h' with
      | cons _ h' => exact absurd (h'.subset (by simp)) hfresh
      | cons_cons _ h' => rfl

/-- Where no document stands twice, the order tells any two of them apart. -/
theorem Precedes.antisymm {first second : Entry} (hdistinct : entries.Nodup)
    (h : Precedes field entries first second) (h' : Precedes field entries second first) :
    first = second := by
  rw [Precedes] at h h'
  cases hfirst : sortKey? field first with
  | none =>
    cases hsecond : sortKey? field second with
    | none =>
      rw [hfirst, hsecond] at h h'
      exact eq_of_sublists hdistinct h h'
    | some other =>
      rw [hfirst, hsecond] at h
      cases h
  | some key =>
    cases hsecond : sortKey? field second with
    | none =>
      rw [hfirst, hsecond] at h'
      cases h'
    | some other =>
      rw [hfirst, hsecond] at h h'
      rcases h with hless | ⟨hsame, hpair⟩
      · rcases h' with hless' | ⟨hsame', -⟩
        · exact absurd (String.lt_trans hless hless') (String.lt_irrefl key)
        · rw [hsame'] at hless
          exact absurd hless (String.lt_irrefl key)
      · rcases h' with hless' | ⟨-, hpair'⟩
        · rw [hsame] at hless'
          exact absurd hless' (String.lt_irrefl other)
        · exact eq_of_sublists hdistinct hpair hpair'

theorem Precedes.mono {more : List Entry} {first second : Entry}
    (h : Precedes field entries first second) (hmore : entries.Sublist more) :
    Precedes field more first second := by
  rw [Precedes] at h ⊢
  split at h
  · exact h.imp_right (And.imp_right fun hpair => hpair.trans hmore)
  · trivial
  · exact h
  · exact h.trans hmore

theorem inOrder_trans (a b c : String × Entry) (hab : inOrder false a b = true)
    (hbc : inOrder false b c = true) : inOrder false a c = true :=
  decide_eq_true (String.le_trans (of_decide_eq_true hab) (of_decide_eq_true hbc))

theorem inOrder_total (a b : String × Entry) :
    (inOrder false a b || inOrder false b a) = true := by
  simpa [inOrder] using String.le_total a.1 b.1

/-- Sorting keeps the order of what has the same text. -/
theorem filter_mergeSort (keyed : List (String × Entry)) (key : String) :
    (keyed.mergeSort (inOrder false)).filter (·.1 = key) = keyed.filter (·.1 = key) := by
  have hpairs : (keyed.filter (·.1 = key)).Pairwise fun a b => inOrder false a b = true := by
    rw [List.pairwise_filter]
    refine List.pairwise_of_forall fun a b ha hb => decide_eq_true ?_
    have hsame : a.1 = b.1 := (of_decide_eq_true ha).trans (of_decide_eq_true hb).symm
    exact hsame ▸ Std.le_refl a.1
  have hsublist := (List.sublist_mergeSort inOrder_trans inOrder_total hpairs
    List.filter_sublist).filter (·.1 = key)
  simp only [List.filter_filter, Bool.and_self] at hsublist
  refine (hsublist.eq_of_length ?_).symm
  exact ((List.mergeSort_perm keyed _).filter _).length_eq.symm

theorem pairwise_mergeSort_keyed (keyed : List (String × Entry)) :
    (keyed.mergeSort (inOrder false)).Pairwise fun a b =>
      a.1 < b.1 ∨ a.1 = b.1 ∧ [a, b].Sublist keyed := by
  have hsorted := List.pairwise_mergeSort inOrder_trans inOrder_total keyed
  rw [List.pairwise_iff_forall_sublist] at hsorted ⊢
  intro a b hpair
  have hle : a.1 ≤ b.1 := of_decide_eq_true (hsorted hpair)
  by_cases hkey : b.1 ≤ a.1
  · have hsame : a.1 = b.1 := String.le_antisymm hle hkey
    have hkept := hpair.filter (·.1 = b.1)
    rw [filter_mergeSort] at hkept
    refine .inr ⟨hsame, List.Sublist.trans ?_ (hkept.trans List.filter_sublist)⟩
    simp [hsame]
  · exact .inl (String.not_le.mp hkey)

/-- Documents ordered by a field stand as it tells. -/
theorem pairwise_orderedBy (field : String) (entries : List Entry) :
    (orderedBy field false entries).Pairwise (Precedes field entries) := by
  set keyed := entries.filterMap fun entry => (sortKey? field entry).map fun key => (key, entry)
    with hkeyed
  have hkeys : ∀ pair ∈ keyed, sortKey? field pair.2 = some pair.1 := by
    intro pair hpair
    obtain ⟨entry, -, hentry⟩ := List.mem_filterMap.mp hpair
    obtain ⟨key, hkey, rfl⟩ := Option.map_eq_some_iff.mp hentry
    exact hkey
  have hmap : (keyed.map (·.2)).Sublist entries := by
    rw [hkeyed, map_sortKeys]
    exact List.filter_sublist
  rw [orderedBy, ← hkeyed, List.pairwise_append, List.pairwise_map]
  refine ⟨?_, ?_, ?_⟩
  · refine (pairwise_mergeSort_keyed keyed).imp_of_mem fun {a b} ha hb hab => ?_
    rw [List.mem_mergeSort] at ha hb
    rw [Precedes, hkeys a ha, hkeys b hb]
    refine hab.imp_right (And.imp_right fun hpair => ?_)
    exact (hpair.map (·.2)).trans hmap
  · rw [List.pairwise_iff_forall_sublist]
    intro a b hpair
    have hnone : ∀ entry ∈ [a, b], sortKey? field entry = none := by
      intro entry hentry
      exact Option.isNone_iff_eq_none.mp (List.mem_filter.mp (hpair.subset hentry)).2
    rw [Precedes, hnone a (by simp), hnone b (by simp)]
    exact hpair.trans List.filter_sublist
  · intro a ha b hb
    obtain ⟨pair, hpair, rfl⟩ := List.mem_map.mp ha
    rw [List.mem_mergeSort] at hpair
    rw [Precedes, hkeys pair hpair, Option.isNone_iff_eq_none.mp (List.mem_filter.mp hb).2]
    trivial

end Query

/-! ### Decoders that are asked for -/

namespace Gate

/-- Whether the name of a body has a term in it, without regard to casing. -/
def hasInName (term : String) (body : Table Json) : Bool :=
  match Query.at? (.object body) ["document", "name"] with
  | some (.text name) => (Text.lower term).toList <:+: (Text.lower name).toList
  | _ => false

/-- Whether a body is asked for by a term: by its name or by its id. The empty term asks for all. -/
def isAskedFor (term : String) (body : Table Json) : Bool :=
  term = "" || (hasInName term body ||
    Query.at? (.object body) ["document", "id"] = some (.text term))

/-- The query for the documents that have a term in their name. -/
def nameQuery (term : String) : Json :=
  .object [("wildcard", .object [("document.name", .object
    [("value", .text ("*" ++ term ++ "*")), ("case_insensitive", .bool true)])])]

/-- The query for the documents that have a term in their name, or as their id. -/
def termQuery (term : String) : Json :=
  .object [("bool", .object
    [("should", .list [nameQuery term, Scope.term "document.id" term]),
     ("minimum_should_match", .int 1)])]

/-- The term that a text is searched for by. Without a text it is the empty one. -/
def termOf (text : Option String) : String := Text.trim (text.getD "")

theorem candidateQuery_eq (text : Option String) :
    candidateQuery text = if termOf text = "" then .null
      else termQuery (termOf text) := by
  rw [candidateQuery]
  simp only [String.isEmpty_iff]
  rfl

section

variable {term : String} {body : Table Json} (id : String)

theorem holds_nameQuery (hfree : Text.Free term.toList) :
    Query.holds ⟨Memory.defaultMapping, id, body⟩ true (nameQuery term) =
      .ok (hasInName term body) := by
  have hname : Query.valueAt? Memory.defaultMapping body "document.name" =
      Query.at? (.object body) ["document", "name"] := by
    have hpath : Text.split '.' (Query.readName Memory.defaultMapping "document.name") =
        ["document", "name"] := by decide
    rw [Query.valueAt?, hpath]
  show Query.wildcardHolds _ true (.object [("document.name", _)]) = _
  rw [hasInName]
  simp only [Query.wildcardHolds, Query.soleField, bind, Except.bind, pure, Except.pure, hname]
  cases Query.at? (.object body) ["document", "name"] with
  | none => rfl
  | some found =>
    cases found with
    | text name =>
      show Except.ok (Text.Glob.matchesText (Text.lower ("*" ++ term ++ "*")) (Text.lower name)) = _
      rw [Except.ok.injEq, Bool.eq_iff_iff, Text.Glob.matches_lower_between hfree,
        decide_eq_true_iff]
    | _ => rfl

/-- A document with a text as its id is found by the term that is the id. -/
theorem holds_idQuery {text : String}
    (hid : Query.at? (.object body) ["document", "id"] = some (.text text)) :
    Query.holds ⟨Memory.defaultMapping, id, body⟩ true (Scope.term "document.id" term) =
      .ok (decide (Query.at? (.object body) ["document", "id"] = some (.text term))) := by
  have hsearchable : Query.searchable Memory.defaultMapping "document.id" = true := by decide
  have hsame : Query.holdsValue (.text text) (.text term) = (text == term) := rfl
  rw [Query.holds_term, hsearchable, Scope.valueAt?_id, hid, Option.any_some, hsame,
    Bool.true_and, beq_eq_decide]
  simp only [Option.some.injEq, Json.text.injEq]

theorem holds_termQuery (hfree : Text.Free term.toList) {text : String}
    (hid : Query.at? (.object body) ["document", "id"] = some (.text text)) :
    Query.holds ⟨Memory.defaultMapping, id, body⟩ false (termQuery term) =
      .ok (hasInName term body ||
        Query.at? (.object body) ["document", "id"] = some (.text term)) := by
  show (do
    let count ← Query.countHolding _ [nameQuery term, Scope.term "document.id" term]
    Query.reaches count (.int 1)) = _
  simp only [Query.countHolding, holds_nameQuery id hfree, holds_idQuery id hid, bind, Except.bind,
    pure, Except.pure]
  cases hasInName term body <;>
    cases decide (Query.at? (.object body) ["document", "id"] = some (.text term)) <;> rfl

end

/-- A query for candidates is one clause, or compound. -/
theorem given_candidateQuery (text : Option String) :
    Query.Given (fun _ _ => True) (candidateQuery text) := by
  rw [candidateQuery_eq]
  split_ifs
  · exact .inl rfl
  · refine .inr (.compound rfl rfl rfl trivial fun query hquery => ?_)
    simp only [List.nil_append, List.mem_cons, List.not_mem_nil, or_false] at hquery
    rcases hquery with rfl | rfl
    · exact .simple (by decide) trivial
    · exact .simple (by decide) trivial

variable {text : Option String}

theorem holds_candidateQuery (hfree : Text.Free (termOf text).toList)
    {body : Table Json} {found : String}
    (hid : Query.at? (.object body) ["document", "id"] = some (.text found)) (id : String) :
    Query.holds ⟨Memory.defaultMapping, id, body⟩ false (candidateQuery text) =
      .ok (isAskedFor (termOf text) body) := by
  rw [candidateQuery_eq, isAskedFor]
  split_ifs with hblank
  · rw [hblank]
    rfl
  · rw [holds_termQuery id hfree hid, decide_eq_false hblank, Bool.false_or]

end Gate

/-! ### The decoders of a space -/

namespace Memory

/-- The entities of a type have texts as their ids. -/
def TextIdsOf (memory : Memory) (type : EntityType) : Prop :=
  ∀ entry ∈ memory.entities type,
    ∃ id, Query.at? (.object entry.2) ["document", "id"] = some (.text id)

/-- The decoders of a space that are asked for by a term, in the order of the index. -/
def choices (memory : Memory) (space : Space) (term : String) : List Query.Entry :=
  (memory.entities .decoders).filter fun entry =>
    Scope.belongs space entry.2 && Gate.isAskedFor term entry.2

variable {memory : Memory} {text : Option String}

theorem textIdsOf_of_isSome {type : EntityType} (h : ∀ entry ∈ memory.entities type,
    ((Query.at? (.object entry.2) ["document", "id"]).bind Json.text?).isSome) :
    memory.TextIdsOf type := by
  intro entry hentry
  obtain ⟨id, hid⟩ := Option.isSome_iff_exists.mp (h entry hentry)
  obtain ⟨value, hvalue, htext⟩ := Option.bind_eq_some_iff.mp hid
  cases value with
  | text id => exact ⟨id, hvalue⟩
  | _ => cases htext

/-- The query for candidates, scoped to a space by fields that were probed, finds the choices. -/
theorem found_candidates
    (hmapping : memory.mappings.get? ".cti-decoders" = some defaultMapping)
    (hids : memory.TextIdsOf .decoders)
    (hfree : Text.Free (Gate.termOf text).toList) {space : Space} {fields : List String}
    (hfields : Scope.Probed (some defaultMapping) fields) {narrow : Json}
    (hnarrow : Scope.Restricts narrow (Gate.candidateQuery text)
      (Scope.filter space.name fields)) :
    memory.found ".cti-decoders" narrow =
      .ok (memory.choices space (Gate.termOf text)) := by
  refine filterM_eq_filter _ _ _ fun entry hentry => ?_
  obtain ⟨id, hid⟩ := hids entry hentry
  have hcarried := Scope.holds_filter_probed hfields space entry.1 entry.2 true
  have hasked := Gate.holds_candidateQuery hfree hid entry.1
  rw [mapping, hmapping, Option.getD_some]
  rw [Option.getD_some, Scope.carries_default] at hcarried
  obtain ⟨found, hfound⟩ := hnarrow.answers _ _ hcarried ⟨_, hasked⟩
  have hfinds := hnarrow.finds_eq _ _ hcarried
  rw [Query.finds_of_holds hfound, Query.finds_of_holds hasked, Bool.and_comm] at hfinds
  rw [hfound, hfinds]

end Memory

/-- What counts as given under a key of the document is what does at its path. -/
theorem Content.given?_under {body fields : Table Json}
    (hdocument : body.get? "document" = some (.object fields)) (key : String) :
    (Json.under fields key).given? =
      (Query.at? (.object body) ["document", key]).bind Json.given? := by
  rw [Query.at?_cons, hdocument, Option.bind_some, Query.at?_key, Json.get?, Json.under]
  cases Table.get? fields key <;> rfl

namespace Gate

/-! ### Candidates -/

/-- A decoder as one to choose: by its id, or by its storage id if that is empty, with its name, or
with its id if it has none. -/
def candidateOf (entry : Query.Entry) : Candidate :=
  let shown (key : String) : Option String :=
    ((Query.at? (.object entry.2) ["document", key]).bind Json.given?).map Json.display
  let id := (shown "id").getD entry.1
  ⟨id, (shown "name").getD id⟩

/-- What is read of decoders to choose from. -/
def candidateView (body : Table Json) : Table Json :=
  Query.partsAt body ["document.id", "document.name"]

theorem toCandidate_candidateView {entry : Query.Entry} {id : String}
    (hid : Query.at? (.object entry.2) ["document", "id"] = some (.text id)) :
    toCandidate (Store.toHit candidateView entry) = .ok (candidateOf entry) := by
  have hidAsked : "document.id" ∈ ["document.id", "document.name"] := by decide
  have hnameAsked : "document.name" ∈ ["document.id", "document.name"] := by decide
  have hshown : Query.at? (.object (candidateView entry.2)) ["document", "id"] =
      Query.at? (.object entry.2) ["document", "id"] := Query.at?_partsAt hidAsked
  have hname : Query.at? (.object (candidateView entry.2)) ["document", "name"] =
      Query.at? (.object entry.2) ["document", "name"] := Query.at?_partsAt hnameAsked
  obtain ⟨fields, hdocument, -⟩ := Content.exists_document_of_at? (hshown.trans hid)
  rw [toCandidate, candidateOf, Store.toHit]
  simp only [Content.documentFields_of_object hdocument, Content.given?_under hdocument, hshown,
    hname, bind, Except.bind, pure, Except.pure]

/-- The decoders of a space that are asked for by a term, in the order in which they are shown. -/
def listed (memory : Memory) (space : Space) (term : String) : List Query.Entry :=
  Query.orderedBy "document.name" false (memory.choices space term)

theorem perm_listed (memory : Memory) (space : Space) (term : String) :
    (listed memory space term).Perm (memory.choices space term) :=
  Query.perm_orderedBy "document.name" false _

/-- The page of candidates from an offset on. -/
def candidatePage (entries : List Query.Entry) (first size : Nat) : CandidatePage :=
  ⟨entries.length, ((entries.map candidateOf).drop first).take size⟩

variable {deployment : Deployment} {world : World} {text : Option String}

/-- A search for the choices of a space shows the ones from an offset on, as many as fit. -/
theorem search_candidates {memory : Memory} {space : Space} {term : String} {query : Json}
    (hfound : memory.found ".cti-decoders" query = .ok (memory.choices space term))
    (first size : Nat) :
    memory.search ".cti-decoders"
        { query, sort := sortBy "document.name", first, size
          source := Json.texts ["document.id", "document.name"] } =
      .ok ⟨(memory.choices space term).length,
        (((listed memory space term).drop first).take size).map (Store.toHit candidateView)⟩ := by
  have hsorted : Query.ordered (sortBy "document.name") (memory.choices space term) =
      .ok (listed memory space term) := rfl
  have hview : ∀ body, Query.projected (Json.texts ["document.id", "document.name"]) body =
      .ok (candidateView body) := fun _ => rfl
  rw [List.map_take, List.map_drop]
  exact Store.search_ordered hfound hsorted hview rfl (Int.natCast_nonneg size)

theorem mapM_toCandidate {entries : List Query.Entry}
    (hids : ∀ entry ∈ entries,
      ∃ id, Query.at? (.object entry.2) ["document", "id"] = some (.text id)) :
    (entries.map (Store.toHit candidateView)).mapM toCandidate =
      .ok (entries.map candidateOf) := by
  rw [List.mapM_map]
  refine Store.mapM_eq_map fun entry hentry => ?_
  obtain ⟨id, hid⟩ := hids entry hentry
  exact toCandidate_candidateView hid

/-- A page of candidates has those of the list from an offset on, as many as fit. -/
theorem performs_candidates (h : deployment.Standard) (hworld : world.Standing)
    (hids : world.memory.TextIdsOf .decoders) (hfree : Text.Free (termOf text).toList)
    (space : Space) (first size : Nat) :
    (candidates space text first size).Performs deployment world []
      (.ok (candidatePage (listed world.memory space (termOf text)) first size)) True := by
  have hmapping : world.memory.mappings.get? ".cti-decoders" = some Memory.defaultMapping :=
    hworld.mapped _ (by decide)
  have hindex : deployment.settings.decodersIndex = ".cti-decoders" := h.indexFor .decoders
  have hname : space.name ≠ "" := by cases space <;> decide
  choose narrowed happly hrestricts using fun fields =>
    Scope.restricts_apply hname fields (given_candidateQuery text)
  rw [candidates]
  refine Resolver.performs_scoped h hworld.probed hindex (by decide) space happly
    fun fields later hfields hmemory => ?_
  rw [hmapping] at hfields
  rw [hindex]
  have hfound := Memory.found_candidates hmapping hids hfree hfields (hrestricts fields)
  have hsearch := search_candidates hfound first size
  rw [← hmemory] at hsearch
  have hperforms : (Store.search ".cti-decoders"
      { query := narrowed fields, sort := sortBy "document.name", first, size
        source := Json.texts ["document.id", "document.name"] }).Performs
      deployment later [] _ True := Store.performs_search h.backend _ _
  rw [hsearch, hmemory] at hperforms
  have hshown : ∀ entry ∈ ((listed world.memory space (termOf text)).drop first).take size,
      ∃ id, Query.at? (.object entry.2) ["document", "id"] = some (.text id) :=
    fun entry hentry => hids entry (List.mem_of_mem_filter ((perm_listed _ space _).subset
      (List.mem_of_mem_drop (List.mem_of_mem_take hentry))))
  have hitems := mapM_toCandidate hshown
  refine hperforms.read_bind fun found _ => ?_
  dsimp only
  rw [hitems, candidatePage, (perm_listed _ space _).length_eq, ← List.map_drop, ← List.map_take]
  exact Work.performs_pure _

/-! ### All pages -/

/-- A number of pages of one size, one after another from an offset on. -/
def pagesFrom (space : Space) (text : Option String) (size : Nat) :
    Nat → Nat → Work (List CandidatePage)
  | 0, _ => pure []
  | count + 1, first => do
    let page ← candidates space text first size
    let rest ← pagesFrom space text size count (first + size)
    pure (page :: rest)

/-- The pages that some decoders are shown on, from an offset on. -/
def pagesOf (entries : List Query.Entry) (size : Nat) : Nat → Nat → List CandidatePage
  | 0, _ => []
  | count + 1, first =>
    candidatePage entries first size :: pagesOf entries size count (first + size)

theorem performs_pagesFrom (h : deployment.Standard) (hworld : world.Standing)
    (hids : world.memory.TextIdsOf .decoders) (hfree : Text.Free (termOf text).toList)
    (space : Space) (size count first : Nat) :
    (pagesFrom space text size count first).Performs deployment world []
      (.ok (pagesOf (listed world.memory space (termOf text)) size count first)) True := by
  induction count generalizing world first with
  | zero => exact Work.performs_pure []
  | succ count ih =>
    rw [pagesFrom, pagesOf]
    refine (performs_candidates h hworld hids hfree space first size).read_bind
      fun later hlater => ?_
    -- the next page is one of the same documents
    rw [← hlater.memory_eq] at hids ⊢
    exact (ih (hworld.after hlater) hids (first + size)).read_bind fun last _ =>
      Work.performs_pure _

/-- Pages of one size tile some decoders: each tells how many there are on all pages, and their
candidates, put one behind the other, are those of the decoders, as far as the pages reach. -/
structure Tiles (entries : List Query.Entry) (size count : Nat) (pages : List CandidatePage) :
    Prop where
  length : pages.length = count
  total : ∀ page ∈ pages, page.total = entries.length
  fits : ∀ page ∈ pages, page.items.length ≤ size
  items : pages.flatMap (·.items) = (entries.map candidateOf).take (count * size)
  all : entries.length ≤ count * size → pages.flatMap (·.items) = entries.map candidateOf

theorem flatMap_pagesOf (entries : List Query.Entry) (size count first : Nat) :
    (pagesOf entries size count first).flatMap (·.items) =
      ((entries.map candidateOf).drop first).take (count * size) := by
  induction count generalizing first with
  | zero => simp [pagesOf]
  | succ count ih =>
    rw [pagesOf, List.flatMap_cons, ih, candidatePage, ← List.drop_drop, Nat.succ_mul,
      Nat.add_comm, List.take_add]

theorem mem_pagesOf {entries : List Query.Entry} {size count first : Nat} {page : CandidatePage}
    (hpage : page ∈ pagesOf entries size count first) :
    page.total = entries.length ∧ page.items.length ≤ size := by
  induction count generalizing first with
  | zero => cases hpage
  | succ count ih =>
    rcases List.mem_cons.mp hpage with rfl | hrest
    · exact ⟨rfl, List.length_take_le _ _⟩
    · exact ih hrest

theorem length_pagesOf (entries : List Query.Entry) (size count first : Nat) :
    (pagesOf entries size count first).length = count := by
  induction count generalizing first with
  | zero => rfl
  | succ count ih => rw [pagesOf, List.length_cons, ih]

theorem tiles_pagesOf (entries : List Query.Entry) (size count : Nat) :
    Tiles entries size count (pagesOf entries size count 0) where
  length := length_pagesOf entries size count 0
  total _ hpage := (mem_pagesOf hpage).1
  fits _ hpage := (mem_pagesOf hpage).2
  items := by rw [flatMap_pagesOf, List.drop_zero]
  all hall := by
    rw [flatMap_pagesOf, List.drop_zero, List.take_of_length_le (by rwa [List.length_map])]

/-- The decoders of a space that are asked for, in the order in which they are shown: those with a
name by its text, then those without, in the order of the index where the names do not differ. -/
structure Listed (memory : Memory) (space : Space) (term : String) (entries : List Query.Entry) :
    Prop where
  perm : entries.Perm (memory.choices space term)
  sorted : entries.Pairwise (Query.Precedes "document.name" (memory.entities .decoders))

/-- Where no decoder stands twice, there is one such list. -/
theorem Listed.unique {memory : Memory} {space : Space} {term : String}
    {entries others : List Query.Entry} (hdistinct : (memory.entities .decoders).Nodup)
    (h : Listed memory space term entries) (h' : Listed memory space term others) :
    entries = others :=
  (h.perm.trans h'.perm.symm).eq_of_pairwise
    (fun _ _ _ _ => Query.Precedes.antisymm hdistinct) h.sorted h'.sorted

theorem listed_listed (memory : Memory) (space : Space) (term : String) :
    Listed memory space term (listed memory space term) where
  perm := perm_listed memory space term
  sorted := (Query.pairwise_orderedBy _ _).imp fun hprecedes =>
    hprecedes.mono List.filter_sublist

/-- All pages of one size show the decoders of a space that are asked for: each once, in one order
that does not depend on the size. No page ends in a fault of its own. -/
theorem pages_tile (h : deployment.Standard) (hworld : world.Standing)
    (hids : world.memory.TextIdsOf .decoders) (hfree : Text.Free (termOf text).toList)
    (space : Space) :
    ∃ entries, Listed world.memory space (termOf text) entries ∧ ∀ size count,
      ∃ pages, (pagesFrom space text size count 0).Yields deployment world (.ok pages) ∧
        Tiles entries size count pages :=
  ⟨_, listed_listed world.memory space (termOf text), fun size count =>
    ⟨_, (performs_pagesFrom h hworld hids hfree space size count 0).yields,
      tiles_pagesOf _ size count⟩⟩

/-- A store with four decoders in `draft`, of which one has no name, and one in `test`. -/
def sshDecoders : World :=
  { memory :=
      { mappings := contentIndexes.map fun index => (index, Memory.defaultMapping)
        indexes :=
          [(".cti-decoders",
            [("a", body "draft" [("id", .text "x"), ("name", .text "nginx ssh")]),
             ("b", body "draft" [("id", .text "SSH")]),
             ("c", body "draft" [("id", .text ""), ("name", .text "Sshd")]),
             ("d", body "draft" [("id", .text "y"), ("name", .text "dns")]),
             ("e", body "test" [("id", .text "z"), ("name", .text "ssh")])])] } }
where
  body (space : String) (fields : Table Json) : Table Json :=
    [("space", .object [("name", .text space)]), ("document", .object fields)]

theorem pages_tile_sshDecoders :
    ∃ pages, ((pagesFrom .draft (some " SSH ") 2 2 0).runOn {} sshDecoders).1 = .ok pages ∧
      pages.flatMap (·.items) = [⟨"c", "Sshd"⟩, ⟨"x", "nginx ssh"⟩, ⟨"SSH", "SSH"⟩] := by
  have hids : sshDecoders.memory.TextIdsOf .decoders :=
    Memory.textIdsOf_of_isSome (by decide +kernel)
  obtain ⟨entries, hlisted, hpages⟩ := @pages_tile {} sshDecoders (some " SSH ")
    Deployment.standard_default ⟨by decide +kernel, fun _ _ _ hkept => by cases hkept⟩ hids
    (by decide +kernel) .draft
  obtain ⟨pages, hyields, htiles⟩ := hpages 2 2
  have hsorted : Listed sshDecoders.memory .draft (termOf (some " SSH "))
      [("c", sshDecoders.body "draft" [("id", .text ""), ("name", .text "Sshd")]),
       ("a", sshDecoders.body "draft" [("id", .text "x"), ("name", .text "nginx ssh")]),
       ("b", sshDecoders.body "draft" [("id", .text "SSH")])] :=
    ⟨by decide +kernel, by decide +kernel⟩
  obtain rfl := hlisted.unique (by decide +kernel) hsorted
  exact ⟨pages, hyields.eq rfl, htiles.all (by decide)⟩

end Gate

end Lifecycle
