import Lifecycle.Change
import Lifecycle.Proofs.Table

/-!
# Laws of changes

The normal form of a list of changes has non-empty ids, each of them once (`normalised_regular`),
and a list that is in this form without any tags is its own normal form
(`normalised_eq_self_iff`). A plan has the ids of the submitted normal form, each with the operation
that the fresh changes give it or else the submitted one (`mem_reconciled`).

The difference of two spaces names an id by how the two tables of hashes differ there
(`mem_between`); it is empty exactly when they agree everywhere (`between_eq_nil_iff`).
-/

namespace Lifecycle

namespace Change

/-! ### Ids -/

def ids (changes : List Change) : List String := changes.map Change.id

theorem mem_ids_writes (changes : List Change) (id : String) :
    id ∈ ids (writes changes) ↔
      ∃ operation, ⟨id, operation⟩ ∈ changes ∧ operation ≠ .remove := by
  rw [ids, writes, List.mem_map]
  constructor
  · rintro ⟨change, hmem, rfl⟩
    obtain ⟨hchange, hkept⟩ := List.mem_filter.mp hmem
    exact ⟨change.operation, hchange, by simpa using hkept⟩
  · rintro ⟨operation, hmem, hkept⟩
    exact ⟨⟨id, operation⟩, List.mem_filter.mpr ⟨hmem, by simpa using hkept⟩, rfl⟩

theorem mem_ids_removals (changes : List Change) (id : String) :
    id ∈ ids (removals changes) ↔ ⟨id, .remove⟩ ∈ changes := by
  rw [ids, removals, List.mem_map]
  constructor
  · rintro ⟨change, hmem, rfl⟩
    obtain ⟨hchange, hremoved⟩ := List.mem_filter.mp hmem
    have hoperation : change.operation = .remove := by simpa using hremoved
    rw [← hoperation]
    exact hchange
  · intro hmem
    exact ⟨⟨id, .remove⟩, List.mem_filter.mpr ⟨hmem, rfl⟩, rfl⟩

theorem mem_ids_of_writes {id : String} (h : id ∈ ids (writes changes)) : id ∈ ids changes :=
  (List.filter_sublist.map Change.id).subset h

theorem mem_ids_of_removals {id : String} (h : id ∈ ids (removals changes)) : id ∈ ids changes :=
  (List.filter_sublist.map Change.id).subset h

/-- Each change is a write or a removal. -/
theorem mem_ids_append (changes : List Change) (id : String) :
    id ∈ ids (writes changes) ++ ids (removals changes) ↔
      ∃ operation, ⟨id, operation⟩ ∈ changes := by
  rw [List.mem_append, mem_ids_writes, mem_ids_removals]
  constructor
  · rintro (⟨operation, hmem, -⟩ | hmem)
    · exact ⟨operation, hmem⟩
    · exact ⟨.remove, hmem⟩
  · rintro ⟨operation, hmem⟩
    by_cases hremove : operation = .remove
    · exact .inr (hremove ▸ hmem)
    · exact .inl ⟨operation, hmem, hremove⟩

/-! ### Normal form -/

/-- A list of changes is *regular* when no id is empty and no id occurs twice. -/
structure Regular (changes : List Change) : Prop where
  nonempty : ∀ change ∈ changes, change.id ≠ ""
  nodup : (ids changes).Nodup

theorem Regular.tail {change : Change} {rest : List Change} (h : Regular (change :: rest)) :
    Regular rest :=
  ⟨fun c hc => h.nonempty c (List.mem_cons_of_mem _ hc), (List.nodup_cons.mp h.nodup).2⟩

theorem Regular.head_not_mem {change : Change} {rest : List Change}
    (h : Regular (change :: rest)) : change.id ∉ ids rest :=
  (List.nodup_cons.mp h.nodup).1

theorem Regular.filter {changes : List Change} (h : Regular changes) (p : Change → Bool) :
    Regular (changes.filter p) :=
  ⟨fun c hc => h.nonempty c (List.mem_filter.mp hc).1,
    (List.filter_sublist.map Change.id).nodup h.nodup⟩

theorem Regular.operation_eq {changes : List Change} (h : Regular changes) {a b : Change}
    (ha : a ∈ changes) (hb : b ∈ changes) (hid : a.id = b.id) : a.operation = b.operation := by
  have hinj := List.inj_on_of_nodup_map h.nodup
  rw [hinj ha hb hid]

/-- The ids of the writes and the removals of a regular list are distinct. -/
theorem Regular.nodup_parts {changes : List Change} (h : Regular changes) :
    (ids (writes changes) ++ ids (removals changes)).Nodup := by
  rw [List.nodup_append]
  refine ⟨(h.filter _).nodup, (h.filter _).nodup, ?_⟩
  rintro id hwrite other hremoval rfl
  obtain ⟨operation, hwrite, hkept⟩ := (mem_ids_writes changes id).mp hwrite
  have hremoval := (mem_ids_removals changes id).mp hremoval
  exact hkept (h.operation_eq hwrite hremoval rfl)

theorem firstOfEach_sublist (seen : List String) (changes : List Change) :
    (firstOfEach seen changes).Sublist changes := by
  induction changes generalizing seen with
  | nil => exact List.Sublist.refl _
  | cons change rest ih =>
    rw [firstOfEach]
    split
    · exact (ih seen).cons _
    · exact (ih _).cons_cons _

/-- What is kept is regular and was not seen before. -/
theorem firstOfEach_regular (seen : List String) (changes : List Change) :
    Regular (firstOfEach seen changes) ∧ ∀ id ∈ ids (firstOfEach seen changes), id ∉ seen := by
  induction changes generalizing seen with
  | nil => exact ⟨⟨by simp [firstOfEach], by simp [firstOfEach, ids]⟩, by simp [firstOfEach, ids]⟩
  | cons change rest ih =>
    rw [firstOfEach]
    split
    · exact ih seen
    · rename_i hkeep
      obtain ⟨hregular, hnew⟩ := ih (change.id :: seen)
      have hid : change.id ≠ "" := by
        intro h
        simp [h] at hkeep
      have hseen : change.id ∉ seen := by
        intro h
        simp [h] at hkeep
      have hrest : change.id ∉ ids (firstOfEach (change.id :: seen) rest) :=
        fun h => hnew _ h List.mem_cons_self
      refine ⟨⟨?_, List.nodup_cons.mpr ⟨hrest, hregular.nodup⟩⟩, ?_⟩
      · intro c hc
        rcases List.mem_cons.mp hc with rfl | hc
        · exact hid
        · exact hregular.nonempty c hc
      · intro id hmem
        rcases List.mem_cons.mp hmem with rfl | hmem
        · exact hseen
        · exact fun h => hnew id hmem (List.mem_cons_of_mem _ h)

/-- Nothing is dropped from a regular list of which nothing was seen before. -/
theorem firstOfEach_eq_self {seen : List String} {changes : List Change} (h : Regular changes)
    (hseen : ∀ id ∈ ids changes, id ∉ seen) : firstOfEach seen changes = changes := by
  induction changes generalizing seen with
  | nil => rfl
  | cons change rest ih =>
    have hid : change.id.isEmpty = false := by
      simpa using h.nonempty change List.mem_cons_self
    have hnew : seen.contains change.id = false := by
      simpa using hseen change.id List.mem_cons_self
    rw [firstOfEach, hid, hnew, Bool.or_self, if_neg Bool.false_ne_true]
    rw [ih h.tail]
    intro id hmem hin
    rcases List.mem_cons.mp hin with rfl | hin
    · exact h.head_not_mem hmem
    · exact hseen id (List.mem_cons_of_mem _ hmem) hin

theorem normalised_regular (changes : List Change) : Regular (normalised changes) :=
  (firstOfEach_regular [] _).1

/-- What is kept of a list is the first change of each id that is not empty and was not seen. -/
theorem mem_firstOfEach (seen : List String) (changes : List Change) (change : Change) :
    change ∈ firstOfEach seen changes ↔
      change.id ≠ "" ∧ change.id ∉ seen ∧
        changes.find? (fun other => other.id == change.id) = some change := by
  induction changes generalizing seen with
  | nil => simp [firstOfEach]
  | cons first rest ih =>
    rw [firstOfEach, List.find?_cons]
    by_cases hsame : first.id = change.id
    · rw [hsame, beq_self_eq_true]
      by_cases hdrop : (change.id.isEmpty || seen.contains change.id) = true
      · rw [if_pos hdrop, ih]
        simp only [Bool.or_eq_true, String.isEmpty_iff, List.contains_iff_mem] at hdrop
        constructor
        · rintro ⟨hid, hseen, -⟩
          exact absurd hdrop (not_or.mpr ⟨hid, hseen⟩)
        · rintro ⟨hid, hseen, -⟩
          exact absurd hdrop (not_or.mpr ⟨hid, hseen⟩)
      · rw [if_neg hdrop, List.mem_cons, ih]
        simp only [Bool.or_eq_true, String.isEmpty_iff, List.contains_iff_mem, not_or] at hdrop
        constructor
        · rintro (rfl | ⟨-, hseen, -⟩)
          · exact ⟨hdrop.1, hdrop.2, rfl⟩
          · exact absurd List.mem_cons_self hseen
        · rintro ⟨-, -, heq⟩
          exact .inl (Option.some.inj heq).symm
    · have hne : change ≠ first := fun heq => hsame (by rw [heq])
      rw [beq_eq_false_iff_ne.mpr hsame]
      by_cases hdrop : (first.id.isEmpty || seen.contains first.id) = true
      · rw [if_pos hdrop, ih]
      · rw [if_neg hdrop, List.mem_cons, ih]
        simp [hne, Ne.symm hsame]

/-- The change that a normal form has for an id is the first one that the changes give it. -/
theorem mem_normalised (changes : List Change) (change : Change) :
    change ∈ normalised changes ↔
      change.id ≠ "" ∧
        (changes.map untagged).find? (fun other => other.id == change.id) = some change := by
  rw [normalised, mem_firstOfEach]
  simp

/-- Normal forms only shrink, so that a list that keeps its ids has no tags to lose. -/
theorem stripTag_eq_of_ids_normalised {changes : List Change}
    (h : ids (normalised changes) = ids changes) :
    ∀ change ∈ changes, stripTag change.id = change.id := by
  have hsub : (normalised changes).Sublist (changes.map untagged) := firstOfEach_sublist _ _
  have hlength : (normalised changes).length = (changes.map untagged).length := by
    have := congrArg List.length h
    simpa [ids] using this
  rw [hsub.eq_of_length hlength, ids, ids, List.map_map] at h
  intro change hmem
  exact List.map_inj_left.mp h change hmem

/-- A regular list is its own normal form exactly when none of its ids has a tag. -/
theorem normalised_eq_self_iff {changes : List Change} (h : Regular changes) :
    normalised changes = changes ↔ ∀ change ∈ changes, stripTag change.id = change.id := by
  constructor
  · intro heq
    exact stripTag_eq_of_ids_normalised (by rw [heq])
  · intro htags
    have hmap : changes.map untagged = changes := by
      conv_rhs => rw [← List.map_id changes]
      refine List.map_congr_left fun change hmem => ?_
      rw [untagged, htags change hmem]
      rfl
    rw [normalised, hmap]
    exact firstOfEach_eq_self h (by simp)

/-! ### Reconciliation -/

/-- The operation that a regular list gives an id. -/
theorem Regular.operations_get? {changes : List Change} (h : Regular changes) (id : String)
    (operation : Operation) :
    (operations changes).get? id = some operation ↔ ⟨id, operation⟩ ∈ changes := by
  have hkeys : Table.keys (changes.map fun change => (change.id, change.operation)) =
      ids changes := by
    simp [Table.keys, ids]
  have hdistinct : Table.Distinct (changes.map fun change => (change.id, change.operation)) := by
    rw [Table.Distinct, hkeys]
    exact h.nodup
  rw [operations, hdistinct.ofEntries_eq_self, hdistinct.get?_eq_some_iff, List.mem_map]
  constructor
  · rintro ⟨change, hmem, heq⟩
    obtain ⟨rfl, rfl⟩ := Prod.mk.inj heq
    exact hmem
  · exact fun hmem => ⟨_, hmem, rfl⟩

/-- A plan has the ids of the submitted normal form. -/
theorem ids_reconciled (submitted fresh : List Change) :
    ids (reconciled submitted fresh) = ids (normalised submitted) := by
  simp [ids, reconciled, Function.comp_def]

theorem reconciled_regular (submitted fresh : List Change) :
    Regular (reconciled submitted fresh) := by
  have h := normalised_regular submitted
  refine ⟨?_, by rw [ids_reconciled]; exact h.nodup⟩
  intro change hmem
  obtain ⟨given, hgiven, rfl⟩ := List.mem_map.mp hmem
  exact h.nonempty given hgiven

/-- A plan of changes that the fresh ones have is the changes as they were submitted. -/
theorem reconciled_eq_self {submitted fresh : List Change} (h : Regular submitted)
    (hfresh : Regular fresh) (hmem : ∀ change ∈ submitted, change ∈ fresh)
    (htags : ∀ change ∈ submitted, stripTag change.id = change.id) :
    reconciled submitted fresh = submitted := by
  rw [reconciled, (normalised_eq_self_iff h).mpr htags]
  conv_rhs => rw [← List.map_id submitted]
  refine List.map_congr_left fun change hchange => ?_
  rw [(hfresh.operations_get? change.id change.operation).mpr (hmem change hchange),
    Option.getD_some]
  rfl

/-- The plan of a regular list against itself is the list exactly when none of its ids has a tag. -/
theorem reconciled_self_iff {changes : List Change} (h : Regular changes) :
    reconciled changes changes = changes ↔ ∀ change ∈ changes, stripTag change.id = change.id := by
  constructor
  · intro heq
    apply stripTag_eq_of_ids_normalised
    rw [← ids_reconciled changes changes, heq]
  · exact reconciled_eq_self h h fun _ hmem => hmem

/-- The operation that brings the target up to date on an id, given the hashes on both sides. -/
def operationFor (source target : Option String) : Option Operation :=
  match source, target with
  | some _, none => some .add
  | some hash, some other => if other = hash then none else some .update
  | none, some _ => some .remove
  | none, none => none

theorem operationFor_eq_none_iff (source target : Option String) :
    operationFor source target = none ↔ source = target := by
  cases source <;> cases target <;> simp [operationFor, eq_comm]

/-- A write is planned only for what the source has. -/
theorem operationFor_ne_remove {source target : Option String} {operation : Operation}
    (h : operationFor source target = some operation) :
    operation ≠ .remove ↔ source.isSome := by
  cases source <;> cases target <;> simp only [operationFor] at h
  · cases h
  · cases h; simp
  · cases h; simp
  · split at h <;> cases h
    simp

theorem needed?_eq_some_iff (target : Table String) (id hash : String) (change : Change) :
    needed? target id hash = some change ↔
      change.id = id ∧ operationFor (some hash) (target.get? id) = some change.operation := by
  obtain ⟨name, operation⟩ := change
  unfold needed? operationFor
  cases h : target.get? id with
  | none => simp [eq_comm]
  | some other =>
    by_cases hne : other = hash
    · simp [hne]
    · simp only [bne_iff_ne, ne_eq, hne, not_false_eq_true, if_true, if_false, Option.some.injEq,
        mk.injEq]
      exact and_congr eq_comm Iff.rfl

/-- The changes between two tables of hashes: for each id the operation that its two hashes ask
for. -/
theorem mem_between {source target : Table String} (hs : source.Distinct) (ht : target.Distinct)
    (change : Change) :
    change ∈ between source target ↔
      operationFor (source.get? change.id) (target.get? change.id) = some change.operation := by
  obtain ⟨id, operation⟩ := change
  rw [between, List.mem_append, List.mem_filterMap, List.mem_map]
  constructor
  · rintro (⟨⟨key, hash⟩, hmem, hneeded⟩ | ⟨⟨key, hash⟩, hmem, heq⟩)
    · obtain ⟨rfl, hop⟩ := (needed?_eq_some_iff target key hash _).mp hneeded
      rw [(hs.get?_eq_some_iff _ _).mpr hmem]
      exact hop
    · obtain ⟨rfl, rfl⟩ := Change.mk.inj heq
      obtain ⟨hmem, hnot⟩ := List.mem_filter.mp hmem
      have hsource : source.get? key = none := by
        simpa [Table.has] using hnot
      rw [hsource, (ht.get?_eq_some_iff _ _).mpr hmem]
      rfl
  · intro hop
    cases hsource : source.get? id with
    | some hash =>
      rw [hsource] at hop
      exact .inl ⟨(id, hash), Table.mem_of_get? hsource,
        (needed?_eq_some_iff target id hash _).mpr ⟨rfl, hop⟩⟩
    | none =>
      rw [hsource] at hop
      cases htarget : target.get? id with
      | none => rw [htarget] at hop; cases hop
      | some hash =>
        rw [htarget] at hop
        cases hop
        refine .inr ⟨(id, hash), List.mem_filter.mpr ⟨Table.mem_of_get? htarget, ?_⟩, rfl⟩
        simp [Table.has, hsource]

/-- There is nothing to change exactly when the two tables agree on every id. -/
theorem between_eq_nil_iff {source target : Table String} (hs : source.Distinct)
    (ht : target.Distinct) :
    between source target = [] ↔ ∀ id, source.get? id = target.get? id := by
  rw [List.eq_nil_iff_forall_not_mem]
  constructor
  · intro h id
    rw [← operationFor_eq_none_iff]
    cases hop : operationFor (source.get? id) (target.get? id) with
    | none => rfl
    | some operation => exact absurd ((mem_between hs ht ⟨id, operation⟩).mpr hop) (h _)
  · intro h change hmem
    have hop := (mem_between hs ht change).mp hmem
    rw [(operationFor_eq_none_iff _ _).mpr (h change.id)] at hop
    cases hop

theorem needed?_eq (target : Table String) (id hash : String) :
    needed? target id hash = (operationFor (some hash) (target.get? id)).map (Change.mk id) := by
  rw [needed?, operationFor.eq_def]
  cases target.get? id with
  | none => rfl
  | some other => by_cases hsame : other = hash <;> simp [hsame]

/-- The changes between two tables of hashes: first the additions and updates in the order of the
source, then the removals in the order of the target. -/
theorem between_eq {source : Table String} (hs : source.Distinct) (target : Table String) :
    between source target =
      (source.keys.filterMap fun id =>
        (operationFor (source.get? id) (target.get? id)).map (Change.mk id)) ++
      (target.keys.filter fun id => !source.has id).map fun id => ⟨id, .remove⟩ := by
  rw [between, Table.keys, List.filterMap_map, Table.keys, List.filter_map, List.map_map]
  congr 1
  refine List.filterMap_congr fun entry hentry => ?_
  rw [Function.comp_apply, (hs.get?_eq_some_iff entry.1 entry.2).mpr hentry, needed?_eq]

/-- No id is changed twice. -/
theorem nodup_ids_between {source target : Table String} (hs : source.Distinct)
    (ht : target.Distinct) : (ids (between source target)).Nodup := by
  rw [ids, between, List.map_append, List.nodup_append]
  refine ⟨?_, ?_, ?_⟩
  · -- the additions and updates have the ids of entries of the source
    have hsub : ((source.filterMap fun entry => needed? target entry.1 entry.2).map
        Change.id).Sublist source.keys := by
      clear hs
      induction source with
      | nil => simp [Table.keys]
      | cons entry rest ih =>
        rw [List.filterMap_cons]
        cases hneeded : needed? target entry.1 entry.2 with
        | none => exact ih.cons _
        | some change =>
          have hid := ((needed?_eq_some_iff target entry.1 entry.2 change).mp hneeded).1
          rw [List.map_cons, hid]
          exact ih.cons_cons _
    exact hsub.nodup hs
  · -- the removals have the ids of entries of the target
    rw [List.map_map]
    exact ht.filter _
  · -- what the target alone has cannot be needed for what the source has
    rintro id hleft other hright rfl
    simp only [List.mem_map, List.mem_filterMap, List.mem_filter] at hleft hright
    obtain ⟨change, ⟨entry, hentry, hneeded⟩, rfl⟩ := hleft
    obtain ⟨removal, ⟨gone, ⟨-, hnot⟩, rfl⟩, hid⟩ := hright
    have hin : source.has entry.1 = true :=
      (Table.has_eq_true_iff _ _).mpr (Table.mem_keys_of_mem (v := entry.2) hentry)
    rw [← ((needed?_eq_some_iff target entry.1 entry.2 change).mp hneeded).1, ← hid] at hin
    simp [hin] at hnot

/-- The changes between two tables of hashes are regular if no id is empty. -/
theorem between_regular {source target : Table String} (hs : source.Distinct)
    (ht : target.Distinct) (hsource : "" ∉ source.keys) (htarget : "" ∉ target.keys) :
    Regular (between source target) := by
  refine ⟨?_, nodup_ids_between hs ht⟩
  intro change hmem hid
  have hop := (mem_between hs ht change).mp hmem
  rw [hid, (Table.get?_eq_none_iff _ _).mpr hsource, (Table.get?_eq_none_iff _ _).mpr htarget]
    at hop
  cases hop

end Change

/-! ### Change sets -/

namespace ChangeSet

theorem normalised_of (changes : ChangeSet) (type : EntityType) :
    changes.normalised.of type = Change.normalised (changes.of type) := by
  cases type <;> rfl

theorem normalised_regular (changes : ChangeSet) (type : EntityType) :
    Change.Regular (changes.normalised.of type) := by
  rw [normalised_of]
  exact Change.normalised_regular _

end ChangeSet

end Lifecycle
