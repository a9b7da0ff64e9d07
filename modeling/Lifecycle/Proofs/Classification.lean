import Lifecycle.Proofs.Duplicates
import Lifecycle.Proofs.MergedOrder

/-!
# How the ledger classifies entities

The ledger that compares contents goes through the documents found in a space page by page and keeps
for each id that they are shown under (`Memory.shownIds`) the hash of the last one
(`Memory.lastHash?`). What it reports of a type is told by these alone (`Memory.classified`): the
ids of the space that the successor does not have are added, those that both have with different
hashes are updated, in the order in which the space shows them first, and the ids that only the
successor has are removed, in the order in which it shows them first.

So it is whenever every document found can be read (`Memory.Readable`): it is an object, or nothing
that counts as given. Otherwise the ledger fails and reports nothing (`entityChanges_classified`),
even though a document that is a text has no id either (`entityChanges_plainDocument`).
-/

namespace Lifecycle

variable {deployment : Deployment} {world : World} {memory : Memory} {type : EntityType}
  {space target : Space} {id : String} {bare : Prop}

namespace Memory

/-- The documents found in a space, in the order of the index. -/
def foundIn (memory : Memory) (type : EntityType) (space : Space) : List Query.Entry :=
  (memory.entities type).filter fun entry =>
    memory.carries (({} : ContentSettings).indexFor type) space entry.2

/-- The ids that the documents found in a space are shown under, in the order in which they appear
first. -/
def shownIds (memory : Memory) (type : EntityType) (space : Space) : List String :=
  distinct ((memory.foundIn type space).filterMap fun entry => Content.shownId? entry.2)

/-- The content hash of the last document that is shown under an id. -/
def lastHash? (memory : Memory) (type : EntityType) (space : Space) (id : String) :
    Option String :=
  (memory.shownAs type space id).getLast?.bind fun entry =>
    (Content.ledgerHash entry.2).toOption

/-- What the documents of two spaces ask for: additions and updates in the order of the one, and
behind them removals in the order of the other. -/
def classified (memory : Memory) (type : EntityType) (space target : Space) : List Change :=
  ((memory.shownIds type space).filterMap fun id =>
    (Change.operationFor (memory.lastHash? type space id) (memory.lastHash? type target id)).map
      (Change.mk id)) ++
  ((memory.shownIds type target).filter fun id => id ∉ memory.shownIds type space).map fun id =>
    ⟨id, .remove⟩

/-- Every document found in a space that counts as given is an object. -/
def Readable (memory : Memory) (type : EntityType) (space : Space) : Prop :=
  ∀ entry ∈ memory.foundIn type space, ∀ value,
    (Json.under entry.2 "document").given? = some value → ∃ fields, value = .object fields

theorem mem_shownIds :
    id ∈ memory.shownIds type space ↔
      ∃ entry ∈ memory.foundIn type space, Content.shownId? entry.2 = some id := by
  rw [shownIds, mem_distinct, List.mem_filterMap]

theorem shownAs_eq : memory.shownAs type space id =
    (memory.foundIn type space).filter fun entry => Content.shownId? entry.2 == some id := by
  rw [shownAs, foundIn, List.filter_filter]
  simp only [Bool.and_comm]

/-- There is a hash for the ids that are shown. -/
theorem isSome_lastHash?_iff :
    (memory.lastHash? type space id).isSome ↔ id ∈ memory.shownIds type space := by
  rw [mem_shownIds, lastHash?, shownAs_eq]
  constructor
  · intro h
    obtain ⟨digest, hdigest⟩ := Option.isSome_iff_exists.mp h
    obtain ⟨last, hlast, -⟩ := Option.bind_eq_some_iff.mp hdigest
    obtain ⟨hmem, hshown⟩ := List.mem_filter.mp (List.mem_of_getLast? hlast)
    exact ⟨last, hmem, beq_iff_eq.mp hshown⟩
  · rintro ⟨entry, hmem, hshown⟩
    have hentry : entry ∈ (memory.foundIn type space).filter fun entry =>
        Content.shownId? entry.2 == some id :=
      List.mem_filter.mpr ⟨hmem, beq_iff_eq.mpr hshown⟩
    obtain ⟨last, hlast⟩ := Option.isSome_iff_exists.mp
      (List.getLast?_isSome.mpr (List.ne_nil_of_mem hentry))
    have hlastshown := (List.mem_filter.mp (List.mem_of_getLast? hlast)).2
    obtain ⟨digest, hdigest⟩ := Content.exists_ledgerHash (beq_iff_eq.mp hlastshown)
    rw [hlast, Option.bind_some, hdigest]
    rfl

end Memory

/-! ### What a document is read as -/

namespace Content

/-- A body is read if its document is an object, or nothing that counts as given. -/
theorem exists_documentFields_iff {body : Table Json} :
    (∃ fields, documentFields body = .ok fields) ↔
      ∀ value, (Json.under body "document").given? = some value →
        ∃ fields, value = .object fields := by
  rw [documentFields, documentValue]
  cases (Json.under body "document").given? with
  | none => simp
  | some value => cases value <;> simp

end Content

/-! ### The hashes of a space -/

namespace Ledger

/-- Hashes are put behind those that are there already, under ids in the order in which they appear
first. -/
theorem keys_of_foldlM_addHash {hits : List Hit} {start t : Table String}
    (h : hits.foldlM addHash start = .ok t) (hstart : start.Distinct) :
    t.Distinct ∧
      t.keys = distinct (start.keys ++ hits.filterMap fun hit => Content.shownId? hit.source) := by
  induction hits generalizing start with
  | nil =>
    cases h
    exact ⟨hstart, by rw [List.filterMap_nil, List.append_nil, distinct_of_nodup hstart]⟩
  | cons hit rest ih =>
    obtain ⟨fields, hfields⟩ := exists_foldlM_addHash_iff.mp ⟨t, h⟩ hit List.mem_cons_self
    rw [List.foldlM_cons, addHash_shown hfields] at h
    rw [List.filterMap_cons]
    cases hshown : Content.shownId? hit.source with
    | none =>
      rw [hshown] at h
      exact ih h hstart
    | some id =>
      rw [hshown] at h
      obtain ⟨hdistinct, hkeys⟩ := ih h (hstart.put id _)
      refine ⟨hdistinct, ?_⟩
      rw [hkeys, Table.keys_put]
      by_cases hthere : start.has id = true
      · rw [if_pos hthere]
        exact (distinct_append_cons ((Table.has_eq_true_iff _ _).mp hthere) _).symm
      · rw [if_neg hthere, List.append_assoc, List.singleton_append]

/-- The only fault of adding hashes is that a document has no fields. -/
theorem exists_of_foldlM_addHash_error {hits : List Hit} {start : Table String} {fault : Fault}
    (h : hits.foldlM addHash start = .error fault) : ∃ value, fault = .noPart value "get" := by
  induction hits generalizing start with
  | nil => cases h
  | cons hit rest ih =>
    cases hfields : Content.documentFields hit.source with
    | ok fields =>
      rw [List.foldlM_cons, addHash_shown hfields] at h
      exact ih h
    | error other =>
      have hfault : other = fault := by
        rw [List.foldlM_cons, addHash, hfields] at h
        exact Except.error.inj h
      rw [Content.documentFields] at hfields
      split at hfields
      · cases hfields
      · exact ⟨_, hfault ▸ (Except.error.inj hfields).symm⟩

/-- The hashes that a scan of a space gives, or the fault that it ends with. -/
def hashesOf (memory : Memory) (type : EntityType) (space : Space) : Except Fault (Table String) :=
  ((memory.foundIn type space).map (Store.toHit Content.documentView)).foldlM addHash []

theorem exists_hashesOf_iff :
    (∃ t, hashesOf memory type space = .ok t) ↔ memory.Readable type space := by
  rw [hashesOf, exists_foldlM_addHash_iff, List.forall_mem_map, Memory.Readable]
  refine forall₂_congr fun entry _ => ?_
  rw [Store.toHit, Content.documentFields_documentView, Content.exists_documentFields_iff]

/-- The ids that there are hashes for are those shown, each with the last hash. -/
theorem of_hashesOf {t : Table String} (h : hashesOf memory type space = .ok t) :
    t.Distinct ∧ t.keys = memory.shownIds type space ∧
      ∀ id, t.get? id = memory.lastHash? type space id := by
  obtain ⟨hdistinct, hkeys⟩ := keys_of_foldlM_addHash h Table.Distinct.nil
  refine ⟨hdistinct, ?_, get?_of_hashes h⟩
  have hnil : Table.keys ([] : Table String) = [] := rfl
  rw [hkeys, hnil, List.nil_append, Memory.shownIds, List.filterMap_map]
  congr 1
  exact List.filterMap_congr fun entry _ => Content.shownId?_documentView entry.2

/-- The ids that there are no hashes for are those that are not shown. -/
theorem between_of_hashesOf {source successor : Table String}
    (hs : hashesOf memory type space = .ok source)
    (ht : hashesOf memory type target = .ok successor) :
    Change.between source successor = memory.classified type space target := by
  obtain ⟨hdistinct, hkeys, hget⟩ := of_hashesOf hs
  obtain ⟨-, hkeys', hget'⟩ := of_hashesOf ht
  rw [Change.between_eq hdistinct, Memory.classified, hkeys, hkeys']
  simp only [hget, hget']
  congr 2
  refine List.filter_congr fun id _ => ?_
  rw [Bool.eq_iff_iff, Bool.not_eq_true', decide_eq_true_eq, ← hkeys, ← Table.has_eq_true_iff,
    Bool.not_eq_true]

/-- The changes of a type are those between the hashes of the two spaces. -/
theorem performs_entityChanges (h : deployment.Standard) (hworld : world.Probed)
    (type : EntityType) (space target : Space) :
    (entityChanges type space target).Performs deployment world []
      (do
        let source ← hashesOf world.memory type space
        let successor ← hashesOf world.memory type target
        pure (Change.between source successor)) bare := by
  rw [entityChanges]
  have hscan : (hashes type space).Performs deployment world []
      (hashesOf world.memory type space) bare := performs_hashes_scan h hworld type space
  cases hsource : hashesOf world.memory type space with
  | error fault =>
    rw [hsource] at hscan
    exact hscan.bind_error
  | ok source =>
    rw [hsource] at hscan
    refine hscan.read_bind fun later hlater => ?_
    have hlast : (hashes type target).Performs deployment later []
        (hashesOf world.memory type target) bare := by
      rw [← hlater.memory_eq]
      exact performs_hashes_scan h (hlater.probed hworld) type target
    cases htarget : hashesOf world.memory type target with
    | error fault =>
      rw [htarget] at hlast
      exact hlast.bind_error
    | ok successor =>
      rw [htarget] at hlast
      exact hlast.read_bind fun _ _ => Work.performs_pure _

end Ledger

/-! ### What is reported of a type -/

/-- Where every document found in two spaces can be read, the ledger reports what they ask for, and
otherwise it fails, for a document has no fields. What they ask for names no id twice, and an id
just as the last hashes of the two spaces differ on it. -/
theorem entityChanges_classified (h : deployment.Standard) (hworld : world.Probed)
    (type : EntityType) (space target : Space) :
    (world.memory.Readable type space ∧ world.memory.Readable type target →
      (Ledger.entityChanges type space target).Yields deployment world
        (.ok (world.memory.classified type space target)) ∧
      (Change.ids (world.memory.classified type space target)).Nodup ∧
      ∀ change, change ∈ world.memory.classified type space target ↔
        Change.operationFor (world.memory.lastHash? type space change.id)
          (world.memory.lastHash? type target change.id) = some change.operation) ∧
    (¬(world.memory.Readable type space ∧ world.memory.Readable type target) →
      ∃ value, (Ledger.entityChanges type space target).Yields deployment world
        (.error (.noPart value "get"))) := by
  have hyields := (Ledger.performs_entityChanges h hworld type space target).yields
  constructor
  · rintro ⟨hspace, htarget⟩
    obtain ⟨source, hsource⟩ := Ledger.exists_hashesOf_iff.mpr hspace
    obtain ⟨successor, hsuccessor⟩ := Ledger.exists_hashesOf_iff.mpr htarget
    obtain ⟨hdistinct, -, hget⟩ := Ledger.of_hashesOf hsource
    obtain ⟨hdistinct', -, hget'⟩ := Ledger.of_hashesOf hsuccessor
    have hbetween := Ledger.between_of_hashesOf hsource hsuccessor
    rw [hsource, hsuccessor] at hyields
    rw [← hbetween]
    refine ⟨hyields, Change.nodup_ids_between hdistinct hdistinct', fun change => ?_⟩
    rw [Change.mem_between hdistinct hdistinct', hget, hget']
  · intro hunreadable
    cases hsource : Ledger.hashesOf world.memory type space with
    | error fault =>
      obtain ⟨value, rfl⟩ := Ledger.exists_of_foldlM_addHash_error hsource
      rw [hsource] at hyields
      exact ⟨value, hyields⟩
    | ok source =>
      cases hsuccessor : Ledger.hashesOf world.memory type target with
      | error fault =>
        obtain ⟨value, rfl⟩ := Ledger.exists_of_foldlM_addHash_error hsuccessor
        rw [hsource, hsuccessor] at hyields
        exact ⟨value, hyields⟩
      | ok successor =>
        exact absurd ⟨Ledger.exists_hashesOf_iff.mp ⟨source, hsource⟩,
          Ledger.exists_hashesOf_iff.mp ⟨successor, hsuccessor⟩⟩ hunreadable

/-- A store with decoders of two spaces over several pages: two of `draft` have one id, one has
none, and one has a number, which a decoder of `test` has as a text. -/
def scatteredDecoders : World :=
  { memory :=
      { mappings := [(".cti-decoders", Memory.defaultMapping)]
        indexes := [(".cti-decoders",
          [("a", body "draft" [("id", .text "x"), ("name", .text "one")]),
           ("b", body "draft" [("name", .text "none")]),
           ("c", body "draft" [("id", .text "y")]),
           ("d", body "draft" twoFields),
           ("e", body "test" twoFields),
           ("f", body "draft" [("id", .int 7)]),
           ("g", body "test" [("id", .text "7")]),
           ("h", body "test" [("id", .text "z")])])] } }
where
  twoFields : Table Json := [("id", .text "x"), ("name", .text "two")]
  body (space : String) (document : Table Json) : Table Json :=
    [("space", .object [("name", .text space)]), ("document", .object document)]

theorem hash_scatteredDecoders :
    Content.hash [("id", .text "7")] [] ≠ Content.hash [("id", .int 7)] [] := by
  -- the only field is the sorted ones, for sorting does not evaluate here
  have htext : ∀ id : Json, Content.canonicalText [("id", id)] [] = Json.sortedText [("id", id)] :=
    fun id => Json.canonical_object_of_perm (List.Perm.refl _) (List.nodup_singleton _)
      (List.pairwise_singleton _ _)
  intro hsame
  have hdigest := String.ofList_injective hsame
  rw [htext, htext] at hdigest
  exact absurd hdigest (by decide +kernel)

theorem classified_scatteredDecoders :
    scatteredDecoders.memory.classified .decoders .draft .test =
      [⟨"y", .add⟩, ⟨"7", .update⟩, ⟨"z", .remove⟩] := by
  have hdraft : scatteredDecoders.memory.shownIds .decoders .draft = ["x", "y", "7"] := by
    decide +kernel
  have htest : scatteredDecoders.memory.shownIds .decoders .test = ["x", "7", "z"] := by
    decide +kernel
  have hlast : ∀ space id entry,
      (scatteredDecoders.memory.shownAs .decoders space id).getLast? = some entry →
        scatteredDecoders.memory.lastHash? .decoders space id =
          (Content.ledgerHash entry.2).toOption := by
    intro space id entry hentry
    rw [Memory.lastHash?, hentry, Option.bind_some]
  have hx : Change.operationFor (scatteredDecoders.memory.lastHash? .decoders .draft "x")
      (scatteredDecoders.memory.lastHash? .decoders .test "x") = none := by
    rw [Change.operationFor_eq_none_iff,
      hlast .draft "x" ("d", scatteredDecoders.body "draft" scatteredDecoders.twoFields)
        (by decide +kernel),
      hlast .test "x" ("e", scatteredDecoders.body "test" scatteredDecoders.twoFields)
        (by decide +kernel)]
    rfl
  have hy : Change.operationFor (scatteredDecoders.memory.lastHash? .decoders .draft "y")
      (scatteredDecoders.memory.lastHash? .decoders .test "y") = some .add := by
    have hnone : scatteredDecoders.memory.lastHash? .decoders .test "y" = none := by
      rw [← Option.not_isSome_iff_eq_none, Memory.isSome_lastHash?_iff, htest]
      decide
    rw [hlast .draft "y" ("c", scatteredDecoders.body "draft" [("id", .text "y")])
      (by decide +kernel), hnone]
    rfl
  have h7 : Change.operationFor (scatteredDecoders.memory.lastHash? .decoders .draft "7")
      (scatteredDecoders.memory.lastHash? .decoders .test "7") = some .update := by
    rw [hlast .draft "7" ("f", scatteredDecoders.body "draft" [("id", .int 7)])
        (by decide +kernel),
      hlast .test "7" ("g", scatteredDecoders.body "test" [("id", .text "7")])
        (by decide +kernel)]
    exact if_neg hash_scatteredDecoders
  rw [Memory.classified, hdraft, htest]
  simp [hx, hy, h7]

/-- A page of two documents at a time, the ledger reports three of the four ids. -/
theorem entityChanges_classified_scatteredDecoders :
    ((Ledger.entityChanges .decoders .draft .test).runOn { settings := { pageSize := 2 } }
      scatteredDecoders).1 = .ok [⟨"y", .add⟩, ⟨"7", .update⟩, ⟨"z", .remove⟩] := by
  have hstandard : Deployment.Standard { settings := { pageSize := 2 } } :=
    ⟨rfl, rfl, rfl, by decide⟩
  have hprobed : scatteredDecoders.Probed := by
    intro index _ fields hkept
    cases hkept
  have hobject : ∀ entry ∈ scatteredDecoders.memory.entities .decoders,
      ((Json.under entry.2 "document").given?.bind Json.fields?).isSome := by
    decide +kernel
  have hreadable : ∀ space, scatteredDecoders.memory.Readable .decoders space := by
    intro space entry hentry value hvalue
    have hfields := hobject entry (List.mem_filter.mp hentry).1
    rw [hvalue, Option.bind_some] at hfields
    cases value with
    | object fields => exact ⟨fields, rfl⟩
    | _ => cases hfields
  obtain ⟨hyields, -, -⟩ := (entityChanges_classified hstandard hprobed .decoders .draft .test).1
    ⟨hreadable .draft, hreadable .test⟩
  rw [hyields.eq rfl, classified_scatteredDecoders]

/-- A store with a decoder whose document is a text. -/
def plainDocument : World :=
  { memory :=
      { mappings := [(".cti-decoders", Memory.defaultMapping)]
        indexes := [(".cti-decoders",
          [("a", [("space", .object [("name", .text "draft")]), ("document", .text "text")])])] } }

/-- A document that is a text has no id, but the ledger does not pass over it: it fails, although no
change is asked for. -/
theorem entityChanges_plainDocument :
    ((Ledger.entityChanges .decoders .draft .test).runOn {} plainDocument).1 =
        .error (.noPart (.text "text") "get") ∧
      (∀ space, plainDocument.memory.shownIds .decoders space = []) ∧
      plainDocument.memory.classified .decoders .draft .test = [] := by
  have hprobed : plainDocument.Probed := by
    intro index _ fields hkept
    cases hkept
  have hids : ∀ space, plainDocument.memory.shownIds .decoders space = [] := by
    intro space
    cases space <;> decide +kernel
  refine ⟨?_, hids, by rw [Memory.classified, hids, hids]; rfl⟩
  have hyields := (Ledger.performs_entityChanges Deployment.standard_default hprobed .decoders
    .draft .test).yields.eq rfl
  rw [hyields]
  have hsource : Ledger.hashesOf plainDocument.memory .decoders .draft =
      .error (.noPart (.text "text") "get") := by
    have hfound : plainDocument.memory.foundIn .decoders .draft =
        plainDocument.memory.entities .decoders := by
      decide +kernel
    rw [Ledger.hashesOf, hfound]
    rfl
  rw [hsource]
  rfl

end Lifecycle
