import Lifecycle.Proofs.Canonical
import Lifecycle.Proofs.Resolution
import Lifecycle.Proofs.Stages
import Lifecycle.Proofs.TrueHashes

/-!
# Documents with the same id

Several documents of a space may be shown under one id (`Memory.shownAs`). The ledger that compares
contents goes through all of them and keeps the hash of the last one (`Ledger.get?_of_hashes`); a
commit looks for the id and keeps the first one that it finds (`Memory.copy?_eq_shown`). So what is
compared is what is promoted if and only if the two have the same content
(`reads_same_copy_iff`), as they have wherever an id is not used twice.

All this holds in any contents, whatever the mapping of the index and the page size are.
-/

namespace Lifecycle

variable {deployment : Deployment} {world : World} {memory : Memory} {type : EntityType}
  {space : Space} {ids : List String} {id : String}

/-! ### What is read of a document -/

namespace Content

/-- The document of a body is read from the part of it that is asked for. -/
theorem documentFields_documentView (body : Table Json) :
    documentFields (documentView body) = documentFields body := by
  have hpath : Text.split '.' "document" = ["document"] := by decide
  have hunder : Json.under (documentView body) "document" = Json.under body "document" := by
    rw [Json.under, Json.under]
    cases hdocument : Table.get? body "document" with
    | none => simp [documentView, Query.partsAt, hpath, Query.withPart, Query.at?, hdocument]
    | some value =>
      simp [documentView, Query.partsAt, hpath, Query.withPart, Query.at?, hdocument, Query.place,
        Table.put, Table.get?]
  rw [documentFields, documentFields, documentValue, documentValue, hunder]

theorem shownId?_documentView (body : Table Json) :
    shownId? (documentView body) = shownId? body := by
  rw [shownId?, shownId?, entityId?, entityId?, documentFields_documentView]

theorem ledgerHash_documentView (body : Table Json) :
    ledgerHash (documentView body) = ledgerHash body := by
  rw [ledgerHash, ledgerHash, documentFields_documentView]

/-- A body that is shown under an id has a document, and so a hash. -/
theorem exists_ledgerHash {body : Table Json} (h : shownId? body = some id) :
    ∃ digest, ledgerHash body = .ok digest := by
  rw [shownId?, entityId?] at h
  rw [ledgerHash]
  cases hfields : documentFields body with
  | error fault =>
    rw [hfields] at h
    cases h
  | ok fields => exact ⟨_, rfl⟩

/-- A body with a text as its id is shown under this text. -/
theorem shownId?_of_text {body : Table Json}
    (h : Query.at? (.object body) ["document", "id"] = some (.text id)) (hid : id ≠ "") :
    shownId? body = some id := by
  have hgiven : (Json.text id).given? = some (.text id) := by
    simp [Json.given?, Json.truthy, hid]
  rw [shownId?, entityId?_of_at? h, hgiven]
  rfl

end Content

namespace Memory

/-- Whether the entities of a type can be searched by their ids. -/
def idsSearchable (memory : Memory) (type : EntityType) : Bool :=
  Query.searchable (memory.mapping (({} : ContentSettings).indexFor type)) "document.id"

/-- The documents that name a space and are shown under an id, in the order of the index. -/
def shownAs (memory : Memory) (type : EntityType) (space : Space) (id : String) :
    List Query.Entry :=
  (memory.entities type).filter fun entry =>
    memory.carries (({} : ContentSettings).indexFor type) space entry.2 &&
      Content.shownId? entry.2 == some id

theorem mem_shownAs {entry : Query.Entry} :
    entry ∈ memory.shownAs type space id ↔ entry ∈ memory.entities type ∧
      memory.carries (({} : ContentSettings).indexFor type) space entry.2 = true ∧
        Content.shownId? entry.2 = some id := by
  simp [shownAs]

/-- The copy that a lookup finds for an id is the first document shown under the id that has one of
the ids looked for, as long as ids can be searched. -/
theorem copy?_eq_shown :
    memory.copy? type ids space id =
      if memory.idsSearchable type
      then (memory.shownAs type space id).find? fun entry => Scope.hasIdAmong ids entry.2
      else none := by
  rw [copy?, copies, shownAs, ← List.head?_filter, ← List.head?_filter, List.filter_filter,
    List.filter_filter]
  have hasked : ∀ body, memory.asked (({} : ContentSettings).indexFor type) space ids body =
      (memory.carries (({} : ContentSettings).indexFor type) space body &&
        (memory.idsSearchable type && Scope.hasIdAmong ids body)) := fun _ => rfl
  simp only [hasked]
  cases memory.idsSearchable type with
  | true =>
    rw [if_pos rfl]
    congr 2
    funext entry
    rw [Bool.true_and, Bool.and_comm, Bool.and_right_comm, Bool.and_comm (Scope.hasIdAmong _ _)]
  | false => simp

end Memory

/-! ### What the ledger keeps -/

namespace Ledger

/-- A document whose hash is added leaves it under its id, if it is shown under one. -/
theorem addHash_shown {hit : Hit} {fields : Table Json}
    (hfields : Content.documentFields hit.source = .ok fields) (t : Table String) :
    addHash t hit = .ok (match Content.shownId? hit.source with
      | none => t
      | some id => t.put id (Content.hash fields [])) := by
  rw [addHash, Content.shownId?, Content.entityId?, hfields]
  simp only [bind, Except.bind, pure, Except.pure]
  cases (Json.under fields "id").given? <;> rfl

/-- Hashes are added as long as documents can be read. -/
theorem exists_foldlM_addHash_iff {hits : List Hit} {start : Table String} :
    (∃ t, hits.foldlM addHash start = .ok t) ↔
      ∀ hit ∈ hits, ∃ fields, Content.documentFields hit.source = .ok fields := by
  induction hits generalizing start with
  | nil => simp [pure, Except.pure]
  | cons hit rest ih =>
    rw [List.foldlM_cons, List.forall_mem_cons]
    cases hfields : Content.documentFields hit.source with
    | error fault =>
      rw [addHash, hfields]
      simp [bind, Except.bind]
    | ok fields =>
      rw [addHash_shown hfields]
      simp only [bind, Except.bind, ih]
      simp

/-- Of the documents that hashes are added of, the last one of each id has left its hash. -/
theorem get?_of_foldlM_addHash {hits : List Hit} {start t : Table String}
    (h : hits.foldlM addHash start = .ok t) (id : String) :
    t.get? id = (((hits.filter fun hit => Content.shownId? hit.source == some id).getLast?).bind
      fun hit => (Content.ledgerHash hit.source).toOption).or (start.get? id) := by
  -- `start` is what the earlier documents have left, and the later ones take precedence over it
  induction hits generalizing start with
  | nil =>
    cases h
    rfl
  | cons hit rest ih =>
    obtain ⟨fields, hfields⟩ := exists_foldlM_addHash_iff.mp ⟨t, h⟩ hit List.mem_cons_self
    rw [List.foldlM_cons, addHash_shown hfields] at h
    rw [ih h, List.filter_cons]
    cases hshown : Content.shownId? hit.source with
    | none => simp
    | some other =>
      by_cases hother : other = id
      · subst hother
        simp only [beq_self_eq_true, if_true, List.getLast?_cons, Table.get?_put]
        cases hlast : (rest.filter fun hit =>
            Content.shownId? hit.source == some other).getLast? with
        | none => simp [Content.ledgerHash, hfields, Except.map, Except.toOption]
        | some last =>
          have hmem := List.mem_filter.mp (List.mem_of_getLast? hlast)
          obtain ⟨digest, hdigest⟩ := Content.exists_ledgerHash (beq_iff_eq.mp hmem.2)
          simp [hdigest, Except.toOption]
      · have hbeq : (some other == some id) = false := by simpa using hother
        simp [hbeq, Table.get?_put, hother]

/-- The hash that the ledger has for an id is that of the last document shown under it. -/
theorem get?_of_hashes {t : Table String}
    (h : (((memory.entities type).filter fun entry =>
      memory.carries (({} : ContentSettings).indexFor type) space entry.2).map
        (Store.toHit Content.documentView)).foldlM addHash [] = .ok t) (id : String) :
    t.get? id = (memory.shownAs type space id).getLast?.bind fun entry =>
      (Content.ledgerHash entry.2).toOption := by
  have hshown : ((fun hit : Hit => Content.shownId? hit.source == some id) ∘
      Store.toHit Content.documentView) = fun entry => Content.shownId? entry.2 == some id := by
    funext entry
    exact congrArg (· == some id) (Content.shownId?_documentView entry.2)
  rw [get?_of_foldlM_addHash h, Table.get?_nil, Option.or_none, List.filter_map, hshown,
    List.getLast?_map, List.filter_filter, Option.bind_map, Memory.shownAs]
  simp only [Bool.and_comm]
  congr 1
  funext entry
  exact congrArg Except.toOption (Content.ledgerHash_documentView entry.2)

end Ledger

/-! ### What is compared and what is promoted -/

/-- A lookup finds the first document shown under an id that has one of the ids looked for, if ids
can be searched, whatever it asks to see of it. -/
theorem Commit.exists_copies_of_first (h : deployment.Standard) (hworld : world.Probed)
    {first : Query.Entry} (hfirst : (world.memory.shownAs type space id).find?
      (fun entry => Scope.hasIdAmong ids entry.2) = some first)
    {source : Json} {view : Table Json → Table Json}
    (hview : ∀ body, Query.projected source body = .ok (view body))
    (hid : ∀ body value, Query.at? (.object body) ["document", "id"] = some value →
      Query.at? (.object (view body)) ["document", "id"] = some value) :
    ∃ found, (copies type ids space source).Yields deployment world (.ok found) ∧
      ∀ hit, found.get? id = some hit ↔
        world.memory.idsSearchable type = true ∧ hit = ⟨first.1, view first.2⟩ := by
  obtain ⟨found, hfound, hget⟩ := performs_copies_found h hworld type ids space hview hid
  refine ⟨found, hfound.yields, fun hit => ?_⟩
  rw [hget, Memory.copy?_eq_shown, hfirst]
  cases world.memory.idsSearchable type <;> simp [Store.toHit, eq_comm]

/-- For an id that is a text, the ledger has the hash of the last document shown under it, if all
documents of the space can be read. A commit finds the first one that has it, if ids can be
searched, whether it looks for what to promote or for what to save over. So the hash is that of the
copy if and only if these two have the same content. -/
theorem reads_same_copy_iff (h : deployment.Standard) (hworld : world.Probed) (hid : id ∈ ids)
    (hne : id ≠ "") (hthere : ∃ entry ∈ world.memory.entities type,
      world.memory.carries (({} : ContentSettings).indexFor type) space entry.2 = true ∧
        Query.at? (.object entry.2) ["document", "id"] = some (.text id)) :
    ∃ hashed found places first last digest,
      (Ledger.hashes type space).Yields deployment world hashed ∧
      (Commit.copies type ids space .null).Yields deployment world (.ok found) ∧
      (Commit.copies type ids space (Json.texts ["document.id"])).Yields deployment world
        (.ok places) ∧
      (world.memory.shownAs type space id).find? (fun entry => Scope.hasIdAmong ids entry.2) =
        some first ∧
      (world.memory.shownAs type space id).getLast? = some last ∧
      Content.ledgerHash last.2 = .ok digest ∧
      ((∃ hashes, hashed = .ok hashes) ↔ ∀ entry ∈ world.memory.entities type,
        world.memory.carries (({} : ContentSettings).indexFor type) space entry.2 = true →
          ∃ fields, Content.documentFields entry.2 = .ok fields) ∧
      (∀ hashes, hashed = .ok hashes → hashes.get? id = some digest) ∧
      (∀ hit, found.get? id = some hit ↔ world.memory.idsSearchable type = true ∧
        hit = ⟨first.1, first.2⟩) ∧
      (∀ hit, places.get? id = some hit ↔ world.memory.idsSearchable type = true ∧
        hit = ⟨first.1, Content.idView first.2⟩) ∧
      ((∃ hit, found.get? id = some hit ∧ Content.ledgerHash hit.source = .ok digest) ↔
        world.memory.idsSearchable type = true ∧
          Content.ledgerHash first.2 = Content.ledgerHash last.2) := by
  obtain ⟨entry, hmem, hcarries, htext⟩ := hthere
  have hentry : entry ∈ world.memory.shownAs type space id :=
    Memory.mem_shownAs.mpr ⟨hmem, hcarries, Content.shownId?_of_text htext hne⟩
  have hasked : Scope.hasIdAmong ids entry.2 = true := by
    rw [Scope.hasIdAmong, htext]
    exact List.any_eq_true.mpr ⟨id, hid, by simp [Query.holdsValue, Json.same]⟩
  obtain ⟨first, hfirst⟩ : ∃ first, (world.memory.shownAs type space id).find?
      (fun entry => Scope.hasIdAmong ids entry.2) = some first :=
    Option.isSome_iff_exists.mp (List.find?_isSome.mpr ⟨entry, hentry, hasked⟩)
  obtain ⟨last, hlast⟩ := Option.isSome_iff_exists.mp
    (List.getLast?_isSome.mpr (List.ne_nil_of_mem hentry))
  obtain ⟨digest, hdigest⟩ := Content.exists_ledgerHash
    (Memory.mem_shownAs.mp (List.mem_of_getLast? hlast)).2.2
  obtain ⟨found, hfound, hcopy⟩ := Commit.exists_copies_of_first h hworld hfirst
    (fun _ => rfl : ∀ body, Query.projected .null body = .ok body) fun _ _ hvalue => hvalue
  obtain ⟨places, hplaces, hplace⟩ := Commit.exists_copies_of_first h hworld hfirst
    Content.projected_id fun _ _ => Content.at?_idView
  refine ⟨_, found, places, first, last, digest,
    (Ledger.performs_hashes_scan h hworld type space).yields, hfound, hplaces, hfirst, hlast,
    hdigest, ?_, ?_, hcopy, hplace, ?_⟩
  · rw [Ledger.exists_foldlM_addHash_iff]
    simp only [List.forall_mem_map, List.mem_filter, and_imp]
    exact forall₃_congr fun entry _ _ => by
      rw [Store.toHit, Content.documentFields_documentView]
  · intro hashes hhashes
    rw [Ledger.get?_of_hashes hhashes, hlast, Option.bind_some, hdigest]
    rfl
  · simp only [hcopy, hdigest]
    constructor
    · rintro ⟨_, ⟨hsearchable, rfl⟩, hsame⟩
      exact ⟨hsearchable, hsame⟩
    · rintro ⟨hsearchable, hsame⟩
      exact ⟨_, ⟨hsearchable, rfl⟩, hsame⟩

/-! ### An id that is used twice -/

/-- A store with two decoders in `draft` that have the same id and different names. -/
def repeatedDecoders : World :=
  { memory :=
      { mappings := [(".cti-decoders", Memory.defaultMapping)]
        indexes := [(".cti-decoders", [("a", body "one"), ("b", body "two")])] } }
where
  fields (name : String) : Table Json := [("id", .text "x"), ("name", .text name)]
  body (name : String) : Table Json :=
    [("space", .object [("name", .text "draft")]), ("document", .object (fields name))]

theorem ledgerHash_repeatedDecoders :
    Content.ledgerHash (repeatedDecoders.body "one") ≠
      Content.ledgerHash (repeatedDecoders.body "two") := by
  -- the fields are given in order, for `List.mergeSort` does not evaluate here
  have hone : Json.canonical (.object (Content.substance (repeatedDecoders.fields "one") [])) =
      Json.sortedText (repeatedDecoders.fields "one") :=
    Json.canonical_object_of_perm (by decide +kernel) (by decide) (by decide +kernel)
  have htwo : Json.canonical (.object (Content.substance (repeatedDecoders.fields "two") [])) =
      Json.sortedText (repeatedDecoders.fields "two") :=
    Json.canonical_object_of_perm (by decide +kernel) (by decide) (by decide +kernel)
  intro hsame
  have hdigest := String.ofList_injective (Except.ok.inj hsame)
  rw [Content.canonicalText, Content.canonicalText, hone, htwo] at hdigest
  exact absurd hdigest (by decide +kernel)

/-- The ledger has the hash of the second decoder, and a commit finds the first one. -/
theorem reads_same_copy_iff_repeatedDecoders :
    ∃ hashes found digest,
      ((Ledger.hashes .decoders .draft).runOn {} repeatedDecoders).1 = .ok hashes ∧
      ((Commit.copies .decoders ["x"] .draft .null).runOn {} repeatedDecoders).1 = .ok found ∧
      hashes.get? "x" = some digest ∧
      found.get? "x" = some ⟨"a", repeatedDecoders.body "one"⟩ ∧
      Content.ledgerHash (repeatedDecoders.body "one") ≠ .ok digest := by
  have hprobed : repeatedDecoders.Probed := by
    intro index _ fields hkept
    cases hkept
  obtain ⟨hashed, found, places, first, last, digest, hhashed, hfound, -, hfirst, hlast, hdigest,
      hread, hcompared, hcopy, -⟩ :=
    @reads_same_copy_iff {} repeatedDecoders .decoders .draft ["x"] "x" ⟨rfl, rfl, rfl, by decide⟩
      hprobed (List.mem_singleton_self _) (by decide)
      ⟨("a", repeatedDecoders.body "one"), List.mem_cons_self, by decide +kernel, rfl⟩
  obtain rfl : ("a", repeatedDecoders.body "one") = first := Option.some.inj hfirst
  obtain rfl : ("b", repeatedDecoders.body "two") = last := Option.some.inj hlast
  obtain ⟨hashes, rfl⟩ := hread.mpr fun entry hentry _ => by
    rcases List.mem_pair.mp hentry with rfl | rfl <;> exact ⟨_, rfl⟩
  refine ⟨hashes, found, digest, hhashed.eq rfl, hfound.eq rfl, hcompared hashes rfl,
    (hcopy _).mpr ⟨rfl, rfl⟩, ?_⟩
  rw [← hdigest]
  exact ledgerHash_repeatedDecoders

end Lifecycle
