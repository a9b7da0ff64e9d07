import Lifecycle.Proofs.Lookups

/-!
# Tables of the copies in a space

A scan of a space goes through its copies and makes a table of them, under the ids of their
entities. In an orderly index no id occurs twice, so that the table just lists the copies
(`Documents.byId`, `foldlM_byId`), whichever of two copies a step would have kept, and what is found
under an id is told by the copy of the entity (`get?_byId`).

So the copies of some entities (`performs_copies`) and the content hashes of all of them
(`performs_hashes`) are what the documents of the index say.
-/

namespace Lifecycle

variable {β : Type} {deployment : Deployment} {world : World}

namespace Documents

variable {docs : Documents} {space : Space}

/-! ### Tables by id -/

/-- The copies in a space of the entities that a test passes, with a value each. -/
def byId (docs : Documents) (space : Space) (test : String → Bool) (value : Query.Entry → β) :
    Table β :=
  (docs.filter fun entry => Scope.belongs space entry.2 && test (Content.idOf entry.2)).map
    fun entry => (Content.idOf entry.2, value entry)

theorem distinct_byId (h : docs.Orderly) (test : String → Bool) (value : Query.Entry → β) :
    (docs.byId space test value).Distinct := by
  rw [Table.Distinct, Table.keys, byId, List.map_map]
  refine List.Nodup.map_on ?_ ((List.Nodup.of_map Prod.fst h.distinct).filter _)
  intro entry hentry other hother hid
  obtain ⟨hmem, htest⟩ := List.mem_filter.mp hentry
  obtain ⟨hmem', htest'⟩ := List.mem_filter.mp hother
  have hid : Content.idOf entry.2 = Content.idOf other.2 := hid
  rw [Bool.and_eq_true] at htest htest'
  refine h.oneCopy entry hmem other hmem' space (Content.idOf entry.2) ?_ ?_
  · rw [Content.isCopy_iff]
    exact ⟨htest.1, rfl⟩
  · rw [Content.isCopy_iff]
    exact ⟨htest'.1, hid.symm⟩

/-- What a table of copies has under an id is told by the copy of the entity. -/
theorem get?_byId (h : docs.Orderly) (test : String → Bool) (value : Query.Entry → β)
    (id : String) :
    (docs.byId space test value).get? id =
      if test id then (docs.copyOf? space id).map value else none := by
  apply Option.ext
  intro v
  rw [(distinct_byId h test value).get?_eq_some_iff, byId, List.mem_map]
  constructor
  · rintro ⟨entry, hentry, heq⟩
    obtain ⟨rfl, rfl⟩ := Prod.mk.inj heq
    obtain ⟨hmem, htest⟩ := List.mem_filter.mp hentry
    rw [Bool.and_eq_true] at htest
    have hfound := (h.copyOf?_eq_some_iff entry).mpr
      ⟨hmem, (Content.isCopy_iff space _ entry.2).mpr ⟨htest.1, rfl⟩⟩
    rw [if_pos htest.2, hfound]
    rfl
  · intro hget
    by_cases htest : test id = true
    · rw [if_pos htest] at hget
      obtain ⟨entry, hfound, rfl⟩ := Option.map_eq_some_iff.mp hget
      obtain ⟨hmem, hcopy⟩ := copyOf?_mem hfound
      obtain ⟨hbelongs, rfl⟩ := (Content.isCopy_iff space id entry.2).mp hcopy
      exact ⟨entry, List.mem_filter.mpr ⟨hmem, by rw [hbelongs, htest]; rfl⟩, rfl⟩
    · rw [if_neg htest] at hget
      cases hget

/-! ### Scans -/

/-- A step that appends what stands under a new key, applied to items with distinct keys. -/
theorem foldlM_append {α : Type} {step : Table β → α → Except Fault (Table β)} {key : α → String}
    {value : α → β} {items : List α} {start : Table β}
    (hstep : ∀ item ∈ items, ∀ t : Table β, key item ∉ t.keys →
      step t item = .ok (t ++ [(key item, value item)]))
    (hdistinct : Table.Distinct (start ++ items.map fun item => (key item, value item))) :
    items.foldlM step start = .ok (start ++ items.map fun item => (key item, value item)) := by
  induction items generalizing start with
  | nil => simp [pure, Except.pure]
  | cons item rest ih =>
    have hassoc : start ++ (item :: rest).map (fun item => (key item, value item)) =
        start ++ [(key item, value item)] ++ rest.map fun item => (key item, value item) := by simp
    have hnew : key item ∉ start.keys := by
      intro hmem
      rw [Table.Distinct, Table.keys, List.map_append, List.nodup_append] at hdistinct
      exact hdistinct.2.2 _ hmem _ (by simp) rfl
    rw [List.foldlM_cons, hstep item List.mem_cons_self start hnew, hassoc]
    exact ih (fun other hother => hstep other (List.mem_cons_of_mem _ hother)) (hassoc ▸ hdistinct)

/-- A scan of the copies in a space lists them. -/
theorem foldlM_byId (h : docs.Orderly) {test : String → Bool} {tested : Query.Entry → Bool}
    {view : Table Json → Table Json} {value : Query.Entry → β}
    {step : Table β → Hit → Except Fault (Table β)}
    (htested : ∀ entry ∈ docs, tested entry =
      (Scope.belongs space entry.2 && test (Content.idOf entry.2)))
    (hstep : ∀ entry ∈ docs, ∀ t : Table β, Content.idOf entry.2 ∉ t.keys →
      step t (Store.toHit view entry) = .ok (t ++ [(Content.idOf entry.2, value entry)])) :
    ((docs.filter tested).map (Store.toHit view)).foldlM step [] =
      .ok (docs.byId space test value) := by
  rw [List.filter_congr htested, List.foldlM_map]
  refine @foldlM_append _ _ _ _ _ _ [] (fun entry hentry => ?_) ?_
  · exact hstep entry (List.mem_filter.mp hentry).1
  · exact distinct_byId h test value

end Documents

/-! ### Copies -/

namespace Commit

def copiesIn (docs : Documents) (space : Space) (ids : List String)
    (view : Table Json → Table Json) : Table Hit :=
  docs.byId space (fun id => ids.contains id) (Store.toHit view)

/-- A document with a new id is added under it. -/
theorem addCopy_eq (hit : Hit) (hid : Content.idOf hit.source ≠ "") {t : Table Hit}
    (hnew : Content.idOf hit.source ∉ t.keys) :
    addCopy t hit = .ok (t ++ [(Content.idOf hit.source, hit)]) := by
  have hhas : t.has (Content.idOf hit.source) = false := by
    rw [← Bool.not_eq_true, Table.has_eq_true_iff]
    exact hnew
  rw [addCopy, Content.entityId?_eq hid]
  show Except.ok (if t.has (Content.idOf hit.source) then t
    else t.put (Content.idOf hit.source) hit) = _
  rw [hhas, if_neg Bool.false_ne_true, Table.put_of_not_mem hnew]

/-- A scan for copies gives those of the entities that a space has. -/
theorem performs_copies (h : deployment.Standard) (hworld : world.Standing) {type : EntityType}
    {docs : Documents} (hdocs : world.memory.entities type = docs) (horderly : docs.Orderly)
    (ids : List String) (space : Space)
    {source : Json} {view : Table Json → Table Json}
    (hview : ∀ body, Query.projected source body = .ok (view body))
    (hid : ∀ body, Content.idOf body ≠ "" → Content.idOf (view body) = Content.idOf body) :
    (copies type ids space source).Performs deployment world []
      (.ok (copiesIn docs space ids view)) := by
  subst hdocs
  have hmapping := hworld.mapped.mapping (indexFor_mem type)
  have hfold : (((world.memory.entities type).filter fun entry =>
      world.memory.asked (({} : ContentSettings).indexFor type) space ids entry.2).map
        (Store.toHit view)).foldlM addCopy [] =
          .ok (copiesIn (world.memory.entities type) space ids view) := by
    apply Documents.foldlM_byId horderly
    · intro entry hentry
      rw [Memory.asked_eq hmapping, Content.hasIdAmong_eq (horderly.identified entry hentry)]
    · intro entry hentry t hnew
      have hidentified := horderly.identified entry hentry
      have hkey : Content.idOf (Store.toHit view entry).source = Content.idOf entry.2 :=
        hid entry.2 hidentified
      have hadd := addCopy_eq (Store.toHit view entry) (hkey ▸ hidentified) (hkey ▸ hnew)
      rwa [hkey] at hadd
  rw [← hfold]
  exact performs_copies_scan h hworld.probed type ids space hview

theorem get?_copiesIn {docs : Documents} (h : docs.Orderly) (space : Space) {ids : List String}
    (view : Table Json → Table Json) {id : String} (hid : id ∈ ids) :
    (copiesIn docs space ids view).get? id = (docs.copyOf? space id).map (Store.toHit view) := by
  rw [copiesIn, Documents.get?_byId h, if_pos (by simpa using hid)]

end Commit

/-! ### Content hashes -/

namespace Ledger

def hashesIn (docs : Documents) (space : Space) : Table String :=
  docs.byId space (fun _ => true) fun entry => Content.hash (Commit.documentOf entry.2) []

/-- A document with a new id is added under it with its content hash. -/
theorem addHash_eq (hit : Hit) (hid : Content.idOf hit.source ≠ "") {t : Table String}
    (hnew : Content.idOf hit.source ∉ t.keys) :
    addHash t hit = .ok (t ++ [(Content.idOf hit.source,
      Content.hash (Commit.documentOf hit.source) [])]) := by
  rw [addHash, Content.documentFields_of_id hid]
  simp only [bind, Except.bind, Content.under_id hid]
  show Except.ok (t.put (Content.idOf hit.source) _) = _
  rw [Table.put_of_not_mem hnew]

/-- A scan for hashes gives those of all copies in a space. -/
theorem performs_hashes (h : deployment.Standard) (hworld : world.Standing) {type : EntityType}
    {docs : Documents} (hdocs : world.memory.entities type = docs) (horderly : docs.Orderly)
    (space : Space) :
    (hashes type space).Performs deployment world [] (.ok (hashesIn docs space)) := by
  subst hdocs
  have hmapping := hworld.mapped.mapping (indexFor_mem type)
  have hfold : (((world.memory.entities type).filter fun entry =>
      world.memory.carries (({} : ContentSettings).indexFor type) space entry.2).map
        (Store.toHit Content.documentView)).foldlM addHash [] =
          .ok (hashesIn (world.memory.entities type) space) := by
    apply Documents.foldlM_byId horderly
    · intro entry _
      rw [Memory.carries_eq hmapping, Bool.and_true]
    · intro entry hentry t hnew
      have hidentified := horderly.identified entry hentry
      have hkey : Content.idOf (Store.toHit Content.documentView entry).source =
          Content.idOf entry.2 := Content.idOf_documentView hidentified
      have hdocument : Commit.documentOf (Store.toHit Content.documentView entry).source =
          Commit.documentOf entry.2 := Content.documentOf_documentView hidentified
      have hadd := addHash_eq (Store.toHit Content.documentView entry)
        (hkey ▸ hidentified) (hkey ▸ hnew)
      rwa [hkey, hdocument] at hadd
  rw [← hfold]
  exact performs_hashes_scan h hworld.probed type space

/-- The hash that a space has for an entity is that of its copy. -/
theorem get?_hashesIn {docs : Documents} (h : docs.Orderly) (space : Space) (id : String) :
    (hashesIn docs space).get? id = (docs.copyOf? space id).map fun entry =>
      Content.hash (Commit.documentOf entry.2) [] := by
  rw [hashesIn, Documents.get?_byId h, if_pos rfl]

end Ledger

end Lifecycle
