import Mathlib.Algebra.BigOperators.Group.Finset.Basic
import Mathlib.Algebra.GroupWithZero.Nat
import Lifecycle.Proofs.Counts
import Lifecycle.Proofs.IssuedWrites

/-!
# Reports of promotions

A promotion that reports issues its writes in three parts: a pass over the types that writes copies,
the policy, and a pass in the reverse order that removes copies (`Commit.Composed`,
`Commit.issues_execute`). Its counts come out of the two passes, and where no two indexes are the
same, those of one type are those of the calls on its index; all counts together are those of the
calls about entities (`Commit.Composed.counting`). So a report counts what was issued
(`Commit.promote_report`).

The counts are a table of tables. It has each type and each operation at most once
(`Commit.Proper`), so that it can be summed up type by type (`Commit.total_eq`).
-/

namespace Lifecycle

variable {deployment : Deployment} {world later : World}

/-! ### Tables with some keys -/

namespace Table

variable {α : Type} {names : List String} {t : Table α}

/-- A table whose keys are among some names, each once. -/
structure KeyedBy (names : List String) (t : Table α) : Prop where
  distinct : t.Distinct
  named : ∀ key ∈ t.keys, key ∈ names

theorem KeyedBy.nil : KeyedBy names ([] : Table α) := ⟨.nil, List.forall_mem_nil _⟩

theorem KeyedBy.put (h : t.KeyedBy names) {key : String} (hkey : key ∈ names) (v : α) :
    (t.put key v).KeyedBy names := by
  refine ⟨h.distinct.put key v, fun other hother => ?_⟩
  rw [keys_put] at hother
  split at hother
  · exact h.named other hother
  · rcases List.mem_append.mp hother with hother | hother
    · exact h.named other hother
    · rwa [List.mem_singleton.mp hother]

theorem KeyedBy.putAll (h : t.KeyedBy names) {entries : Table α}
    (hentries : entries.KeyedBy names) : (t.putAll entries).KeyedBy names := by
  have hnamed : ∀ entry ∈ entries, entry.1 ∈ names :=
    fun entry hentry => hentries.named _ (mem_keys_of_mem hentry)
  clear hentries
  induction entries generalizing t with
  | nil => exact h
  | cons entry rest ih =>
    obtain ⟨hentry, hrest⟩ := List.forall_mem_cons.mp hnamed
    exact ih (h.put hentry entry.2) hrest

/-- What stands in a table is summed up key by key. -/
theorem KeyedBy.sum_eq (h : t.KeyedBy names) (hnames : names.Nodup) (size : α → Nat) :
    (t.map fun entry => size entry.2).sum =
      (names.map fun name => ((t.get? name).map size).getD 0).sum := by
  have hown : (t.map fun entry => size entry.2) =
      t.keys.map fun key => ((t.get? key).map size).getD 0 := by
    rw [keys, List.map_map]
    refine List.map_congr_left fun entry hentry => ?_
    show size entry.2 = ((t.get? entry.1).map size).getD 0
    rw [(h.distinct.get?_eq_some_iff entry.1 entry.2).mpr hentry]
    rfl
  rw [hown, ← List.sum_toFinset _ h.distinct, ← List.sum_toFinset _ hnames]
  refine Finset.sum_subset (fun key hkey => ?_) fun key _ hkey => ?_
  · exact List.mem_toFinset.mpr (h.named key (List.mem_toFinset.mp hkey))
  · rw [(get?_eq_none_iff t key).mpr fun hmem => hkey (List.mem_toFinset.mpr hmem)]
    rfl

end Table

namespace Commit

variable {plan : EntityType → List Change} {removed : EntityType → Nat} {space target : Space}

/-! ### Totals -/

/-- All counts of a report together. -/
def Report.total (report : Report) : Nat :=
  (report.applied.map fun entry => (entry.2.map (·.2)).sum).sum

def operationNames : List String := Operation.all.map Operation.name

def typeNames : List String := EntityType.all.map EntityType.name

/-- Counts of operations, each once, for types, each once. -/
structure Proper (applied : Table Counts) : Prop where
  types : applied.KeyedBy typeNames
  operations : ∀ entry ∈ applied, Table.KeyedBy operationNames entry.2

theorem mem_operationNames (operation : Operation) : operation.name ∈ operationNames := by
  cases operation <;> decide

theorem mem_typeNames (type : EntityType) : type.name ∈ typeNames := by
  cases type <;> decide

theorem keyedBy_counted (changes : List Change) :
    Table.KeyedBy operationNames (counted changes []) :=
  List.foldlRecOn changes _ .nil fun _ hcounts change _ =>
    hcounts.put (mem_operationNames change.operation) _

theorem Proper.record {applied : Table Counts} (h : Proper applied) (type : EntityType)
    {counts : Counts} (hcounts : Table.KeyedBy operationNames counts) :
    Proper (Commit.record applied type counts) := by
  refine ⟨h.types.put (mem_typeNames type) _, fun entry hentry => ?_⟩
  rcases (h.types.distinct.mem_put _ _ _).mp hentry with rfl | ⟨hold, -⟩
  · -- what was counted of the type before is kept beside the new counts
    refine Table.KeyedBy.putAll ?_ hcounts
    cases hold : applied.get? type.name with
    | none => exact .nil
    | some old => exact h.operations _ (Table.mem_of_get? hold)
  · exact h.operations entry hold

theorem proper_tallied (plan : EntityType → List Change) (removed : EntityType → Nat) :
    Proper (tallied plan removed) := by
  have hone : ∀ type : EntityType,
      Table.KeyedBy operationNames [(Operation.remove.name, removed type)] := fun type =>
    Table.KeyedBy.nil.put (mem_operationNames .remove) _
  have hwritten : Proper (writtenCounts plan EntityType.writeOrder []) := by
    refine List.foldlRecOn EntityType.writeOrder _ ⟨.nil, List.forall_mem_nil _⟩ ?_
    intro applied happlied type _
    split
    · exact happlied
    · exact happlied.record type (keyedBy_counted _)
  rw [tallied, recordRemovals]
  refine List.foldlRecOn EntityType.writeOrder.reverse _ hwritten ?_
  intro applied happlied type _
  split
  · exact happlied
  · exact happlied.record type (hone type)

/-- The counts of a report are summed up type by type and operation by operation. -/
theorem total_eq {applied : Table Counts} (h : Proper applied) :
    (applied.map fun entry => (entry.2.map (·.2)).sum).sum =
      (EntityType.all.map fun type =>
        (Operation.all.map fun operation => countIn applied type operation).sum).sum := by
  have hcounts : ∀ counts : Counts, Table.KeyedBy operationNames counts →
      (counts.map (·.2)).sum =
        (Operation.all.map fun operation => Counts.of counts operation).sum := by
    intro counts hcounts
    have hsum := hcounts.sum_eq (by decide) id
    rw [operationNames, List.map_map] at hsum
    simpa [Counts.of, Function.comp_def] using hsum
  have hsum := h.types.sum_eq (by decide) fun counts : Counts => (counts.map (·.2)).sum
  rw [hsum, typeNames, List.map_map]
  congr 1
  refine List.map_congr_left fun type _ => ?_
  show ((applied.get? type.name).map fun counts : Counts => (counts.map (·.2)).sum).getD 0 = _
  cases htype : applied.get? type.name with
  | none => simp [countIn, htype, Counts.of]
  | some counts =>
    rw [Option.map_some, Option.getD_some, hcounts _ (h.operations _ (Table.mem_of_get? htype))]
    simp only [countIn, htype, Option.getD_some]

/-! ### Types that are reported -/

theorem has_record (applied : Table Counts) (type other : EntityType) (counts : Counts) :
    (record applied type counts).has other.name = true ↔
      type = other ∨ applied.has other.name = true := by
  rw [Table.has, record, Table.get?_put]
  by_cases hsame : type = other
  · simp [hsame]
  · simp [hsame, mt EntityType.name_injective hsame, Table.has]

/-- A pass over types that records counts of some of them reports these and what was reported. -/
theorem has_foldl_record {skip : EntityType → Bool} {counts : EntityType → Counts}
    (types : List EntityType) (applied : Table Counts) (type : EntityType) :
    (types.foldl (fun applied type =>
        if skip type then applied else record applied type (counts type)) applied).has type.name =
          true ↔
      applied.has type.name = true ∨ type ∈ types ∧ skip type = false := by
  induction types generalizing applied with
  | nil => simp
  | cons first rest ih =>
    rw [List.foldl_cons, ih, List.mem_cons]
    cases hskip : skip first with
    | true =>
      rw [if_pos rfl]
      refine or_congr_right ⟨fun h => ⟨.inr h.1, h.2⟩, fun ⟨hmem, hkept⟩ => ⟨?_, hkept⟩⟩
      exact hmem.resolve_left fun hsame => by simp [hsame, hskip] at hkept
    | false =>
      rw [if_neg Bool.false_ne_true, has_record]
      by_cases hsame : first = type
      · simp [hsame, hsame ▸ hskip]
      · simp [hsame, Ne.symm hsame]

/-- A type is reported exactly when something is planned for it. -/
theorem has_tallied (plan : EntityType → List Change) (removed : EntityType → Nat)
    (type : EntityType) : (tallied plan removed).has type.name = true ↔ plan type ≠ [] := by
  have hnone : Table.has ([] : Table Counts) type.name = false := rfl
  rw [tallied, recordRemovals, has_foldl_record, writtenCounts, has_foldl_record, hnone]
  simp only [Bool.false_eq_true, false_or, List.mem_reverse, mem_writeOrder, true_and,
    Change.writes, Change.removals, List.isEmpty_eq_false_iff]
  rw [← not_and_or, not_iff_not]
  constructor
  · rintro ⟨hwrites, hremovals⟩
    rw [List.filter_eq_nil_iff] at hwrites hremovals
    refine List.eq_nil_iff_forall_not_mem.mpr fun change hchange => ?_
    -- what is no write is a removal
    have hremove : change.operation = .remove := by simpa using hwrites change hchange
    exact hremovals change hchange (by rw [hremove]; rfl)
  · intro hplan
    rw [hplan]
    exact ⟨rfl, rfl⟩

/-! ### What a commit issues -/

/-- Writes that have a part for each of some types, one behind the other. -/
structure ByType (types : List EntityType) (part : EntityType → List Call → Prop)
    (parts : EntityType → List Call) (issued : List Call) : Prop where
  issued : issued = types.flatMap parts
  each : ∀ type ∈ types, part type (parts type)

theorem exists_byType_cons {part : EntityType → List Call → Prop} {type : EntityType}
    {rest : List EntityType} {parts : EntityType → List Call} {first more : List Call}
    (hnew : type ∉ rest) (hfirst : part type first) (h : ByType rest part parts more) :
    ∃ others, others type = first ∧ (∀ other ∈ rest, others other = parts other) ∧
      ByType (type :: rest) part others (first ++ more) := by
  have hown : Function.update parts type first type = first := Function.update_self ..
  have hother : ∀ other ∈ rest, Function.update parts type first other = parts other :=
    fun other hmem => Function.update_of_ne (ne_of_mem_of_not_mem hmem hnew) ..
  refine ⟨Function.update parts type first, hown, hother, ?_, List.forall_mem_cons.mpr ⟨?_, ?_⟩⟩
  · rw [List.flatMap_cons, hown, List.flatMap_congr hother, h.issued]
  · rwa [hown]
  · intro other hmem
    rw [hother other hmem]
    exact h.each other hmem

theorem recordRemovals_cons (type : EntityType) (rest : List EntityType) (applied : Table Counts) :
    recordRemovals plan removed (type :: rest) applied = recordRemovals plan removed rest
      (if (Change.removals (plan type)).isEmpty then applied
      else record applied type [(Operation.remove.name, removed type)]) := rfl

theorem recordRemovals_congr {others : EntityType → Nat} {types : List EntityType}
    (h : ∀ type ∈ types, removed type = others type) (applied : Table Counts) :
    recordRemovals plan removed types applied = recordRemovals plan others types applied := by
  refine List.foldl_ext _ _ _ fun applied type htype => ?_
  rw [h type htype]

section

variable (hbackend : deployment.backend = .memory)

include hbackend

/-- Writing the copies of some types issues a part for each of them, an upsert for each write. -/
theorem issues_writeAll {types : List EntityType} (hdistinct : types.Nodup)
    (applied : Table Counts) :
    (writeAll plan space target types applied).Issues deployment fun found issued =>
      found = writtenCounts plan types applied ∧ ∃ copies, ByType types
        (fun type => AreCopies deployment.settings type (Change.writes (plan type))) copies
          issued := by
  induction types generalizing applied with
  | nil => exact Work.issues_pure ⟨rfl, fun _ => [], rfl, List.forall_mem_nil _⟩
  | cons type rest ih =>
    obtain ⟨hnew, hrest⟩ := List.nodup_cons.mp hdistinct
    rw [writeAll, writtenCounts, List.foldl_cons]
    split
    · rename_i hempty
      rw [List.isEmpty_iff] at hempty
      have hnone : AreCopies deployment.settings type (Change.writes (plan type)) [] := by
        rw [hempty]
        exact .nil
      refine (ih hrest applied).mono ?_
      rintro found issued ⟨hfound, copies, hcopies⟩
      obtain ⟨others, -, -, hothers⟩ := exists_byType_cons hnew hnone hcopies
      exact ⟨hfound, others, hothers⟩
    · refine ((issues_write hbackend type _ space target).step type.name).bind ?_
      rintro counts first ⟨hcounts, hfirst⟩
      refine (ih hrest _).mono ?_
      rintro found more ⟨hfound, copies, hcopies⟩
      obtain ⟨others, -, -, hothers⟩ := exists_byType_cons hnew hfirst hcopies
      exact ⟨by rw [hfound, hcounts]; rfl, others, hothers⟩

/-- Removing the copies of some types issues a part for each of them, and the lengths of the parts
are what is counted. -/
theorem issues_removeAll {types : List EntityType} (hdistinct : types.Nodup)
    (applied : Table Counts) :
    (removeAll plan target types applied).Issues deployment fun found issued =>
      ∃ deletes, found =
          recordRemovals plan (fun type => (deletes type).length) types applied ∧
        ByType types (fun type part => AreRemovals deployment.settings type part ∧
          (Change.removals (plan type) = [] → part = [])) deletes issued := by
  induction types generalizing applied with
  | nil => exact Work.issues_pure ⟨fun _ => [], rfl, rfl, List.forall_mem_nil _⟩
  | cons type rest ih =>
    obtain ⟨hnew, hrest⟩ := List.nodup_cons.mp hdistinct
    rw [removeAll]
    split
    · rename_i hempty
      refine (ih hrest applied).mono ?_
      rintro found issued ⟨deletes, hfound, hdeletes⟩
      obtain ⟨others, hown, hother, hothers⟩ := exists_byType_cons hnew
        ⟨List.forall_mem_nil _, fun _ => rfl⟩ hdeletes
      refine ⟨others, ?_, hothers⟩
      rw [hfound, recordRemovals_cons, if_pos hempty]
      exact recordRemovals_congr (fun other hmem => by rw [hother other hmem]) applied
    · rename_i hsome
      refine ((issues_remove hbackend type _ target).step type.name).bind ?_
      rintro count first ⟨hcount, hfirst⟩
      refine (ih hrest _).mono ?_
      rintro found more ⟨deletes, hfound, hdeletes⟩
      obtain ⟨others, hown, hother, hothers⟩ := exists_byType_cons hnew
        ⟨hfirst, fun hnone => absurd (List.isEmpty_iff.mpr hnone) hsome⟩ hdeletes
      refine ⟨others, ?_, hothers⟩
      rw [hfound, recordRemovals_cons, if_neg hsome, hown, hcount]
      exact recordRemovals_congr (fun other hmem => by rw [hother other hmem]) _

/-- How the writes of a commit are made up: the copies of the types in their order, the policy if it
is reported as updated, and the removals in the reverse order of types. -/
structure Composed (settings : ContentSettings) (plan : EntityType → List Change) (report : Report)
    (copies : EntityType → List Call) (policy : List Call) (deletes : EntityType → List Call)
    (issued : List Call) : Prop where
  parts : issued = EntityType.writeOrder.flatMap copies ++
    (policy ++ EntityType.writeOrder.reverse.flatMap deletes)
  copied : ∀ type, AreCopies settings type (Change.writes (plan type)) (copies type)
  promoted : if report.policyUpdated then
    ∃ place body, policy = [.upsert settings.policiesIndex place body] else policy = []
  deleted : ∀ type, AreRemovals settings type (deletes type)
  idle : ∀ type, Change.removals (plan type) = [] → deletes type = []
  applied : report.applied = tallied plan fun type => (deletes type).length

theorem issues_execute (withPolicy : Bool) :
    (execute plan withPolicy space target).Issues deployment fun report issued =>
      ∃ copies policy deletes,
        Composed deployment.settings plan report copies policy deletes issued := by
  have hpolicy : (policyWork withPolicy space target).Issues deployment fun updated issued =>
      if updated then ∃ place body,
        issued = [.upsert deployment.settings.policiesIndex place body]
      else issued = [] := by
    rw [policyWork]
    split
    · exact (issues_promotePolicy hbackend space target).step policyStep
    · exact Work.issues_pure rfl
  rw [execute_eq]
  refine (issues_writeAll hbackend nodup_writeOrder []).bind ?_
  rintro applied written ⟨happlied, copies, hcopies⟩
  refine hpolicy.bind fun updated policy hupdated => ?_
  refine (issues_removeAll hbackend (by decide) applied).bind ?_
  rintro counts removals ⟨deletes, hcounts, hdeletes⟩
  have hremovals := fun type => hdeletes.each type (List.mem_reverse.mpr (mem_writeOrder type))
  refine Work.issues_pure ⟨copies, policy, deletes, ?_, ?_, hupdated, ?_, ?_, ?_⟩
  · rw [List.append_nil, hcopies.issued, hdeletes.issued]
  · exact fun type => hcopies.each type (mem_writeOrder type)
  · exact fun type => (hremovals type).1
  · exact fun type => (hremovals type).2
  · rw [hcounts, happlied]
    rfl

end

end Commit

/-! ### Calls that are counted -/

/-- Settings with an index for each type of entity and another one for policies. -/
structure ContentSettings.Separated (settings : ContentSettings) : Prop where
  types : Function.Injective settings.indexFor
  policies : ∀ type, settings.indexFor type ≠ settings.policiesIndex

namespace Call

/-- A call that writes a document of a type whose entity is to change by an operation. -/
def writesFor (settings : ContentSettings) (type : EntityType) (changes : List Change)
    (operation : Operation) : Call → Bool
  | .upsert index _ body =>
    index == settings.indexFor type && changes.any fun change =>
      change.operation == operation && Content.shownId? body == some change.id
  | _ => false

def upsertsTo (wanted : String) : Call → Bool
  | .upsert index .. => index == wanted
  | _ => false

def deletesFrom (wanted : String) : Call → Bool
  | .delete index _ => index == wanted
  | _ => false

/-- A call that writes or deletes a document of some type of entity. -/
def changesEntity (settings : ContentSettings) (call : Call) : Bool :=
  call.method.writes && EntityType.all.any fun type => call.index == settings.indexFor type

end Call

theorem Call.changesEntity_upsert (settings : ContentSettings) (type : EntityType) (place : String)
    (body : Table Json) :
    Call.changesEntity settings (.upsert (settings.indexFor type) place body) = true :=
  List.any_eq_true.mpr ⟨type, type.mem_all, beq_self_eq_true _⟩

theorem Call.changesEntity_delete (settings : ContentSettings) (type : EntityType)
    (place : String) :
    Call.changesEntity settings (.delete (settings.indexFor type) place) = true :=
  List.any_eq_true.mpr ⟨type, type.mem_all, beq_self_eq_true _⟩

theorem Change.length_writes (changes : List Change) :
    (writes changes).length =
      (changes.countP fun change => change.operation == .add) +
        changes.countP fun change => change.operation == .update := by
  rw [writes, ← List.countP_eq_length_filter]
  induction changes with
  | nil => rfl
  | cons change rest ih =>
    rw [List.countP_cons, List.countP_cons, List.countP_cons, ih]
    cases change.operation <;> simp <;> omega

namespace Commit

variable {settings : ContentSettings} {type : EntityType} {changes : List Change}
  {issued : List Call} {p : Call → Bool}

/-- Copies are counted as the changes are that they are written for. -/
theorem AreCopies.countP_eq (h : AreCopies settings type changes issued) {q : Change → Bool}
    (hp : ∀ change ∈ changes, ∀ place body, Content.shownId? body = some change.id →
      p (.upsert (settings.indexFor type) place body) = q change) :
    issued.countP p = changes.countP q := by
  induction h with
  | nil => rfl
  | cons hcall _ ih =>
    obtain ⟨place, body, rfl, hbody⟩ := hcall
    rw [List.countP_cons, List.countP_cons, hp _ List.mem_cons_self place body hbody,
      ih fun other hother => hp other (List.mem_cons_of_mem _ hother)]

theorem AreCopies.countP_eq_zero (h : AreCopies settings type changes issued)
    (hp : ∀ place body, p (.upsert (settings.indexFor type) place body) = false) :
    issued.countP p = 0 := by
  rw [h.countP_eq fun _ _ place body _ => hp place body, List.countP_false]
  rfl

theorem AreRemovals.countP_eq_zero (h : AreRemovals settings type issued)
    (hp : ∀ place, p (.delete (settings.indexFor type) place) = false) :
    issued.countP p = 0 := by
  refine List.countP_eq_zero.mpr fun call hcall => ?_
  obtain ⟨place, rfl⟩ := h call hcall
  simp [hp place]

theorem AreRemovals.countP_eq_length (h : AreRemovals settings type issued)
    (hp : ∀ place, p (.delete (settings.indexFor type) place) = true) :
    issued.countP p = issued.length := by
  refine List.countP_eq_length.mpr fun call hcall => ?_
  obtain ⟨place, rfl⟩ := h call hcall
  exact hp place

/-- What is counted in the part of one type alone is counted there. -/
theorem countP_flatMap_of_others {types : List EntityType} (hdistinct : types.Nodup)
    (htype : type ∈ types) {parts : EntityType → List Call}
    (hothers : ∀ other, other ≠ type → (parts other).countP p = 0) :
    (types.flatMap parts).countP p = (parts type).countP p := by
  rw [List.countP_flatMap, List.sum_map_eq_nsmul_single type (List.countP p ∘ parts)
      fun other hother _ => hothers other hother,
    List.count_eq_one_of_mem hdistinct htype, one_nsmul]
  rfl

theorem countP_flatMap_eq_zero {types : List EntityType} {parts : EntityType → List Call}
    (hnone : ∀ type, (parts type).countP p = 0) : (types.flatMap parts).countP p = 0 := by
  rw [List.countP_flatMap, List.sum_eq_zero]
  intro count hcount
  obtain ⟨type, -, rfl⟩ := List.mem_map.mp hcount
  exact hnone type

/-- A report of what was planned that counts the writes that were issued: under the addition and the
update of a type the upserts of what is planned so, under the removal the deletes, and no others. -/
structure Report.Counting (settings : ContentSettings) (plan : EntityType → List Change)
    (report : Report) (issued : List Call) : Prop where
  proper : Proper report.applied
  written : ∀ type operation, operation ≠ .remove →
    report.countOf type operation =
      issued.countP (Call.writesFor settings type (plan type) operation)
  removed : ∀ type, report.countOf type .remove =
    issued.countP (Call.deletesFrom (settings.indexFor type))
  total : report.total = issued.countP (Call.changesEntity settings)
  named : ∀ type, report.applied.has type.name = true ↔ plan type ≠ []
  policy : report.policyUpdated = true ↔
    issued.countP (Call.upsertsTo settings.policiesIndex) = 1

/-! ### What a report counts -/

/-- What is planned for an id is planned for the copy that is shown under it. -/
theorem writesFor_upsert (hchanges : Change.Regular changes) {change : Change}
    (hchange : change ∈ changes) (operation : Operation) (place : String) {body : Table Json}
    (hbody : Content.shownId? body = some change.id) :
    Call.writesFor settings type changes operation
        (.upsert (settings.indexFor type) place body) = (change.operation == operation) := by
  rw [Call.writesFor, beq_self_eq_true, Bool.true_and, hbody, Bool.eq_iff_iff, List.any_eq_true]
  simp only [Bool.and_eq_true, beq_iff_eq, Option.some.injEq]
  constructor
  · rintro ⟨other, hother, hoperation, hid⟩
    rw [← hoperation, hchanges.operation_eq hchange hother hid]
  · rintro rfl
    exact ⟨change, hchange, rfl, rfl⟩

namespace Composed

variable {plan : EntityType → List Change} {report : Report}
  {copies deletes : EntityType → List Call} {policy : List Call}
  (h : Composed settings plan report copies policy deletes issued)

include h

theorem countP_eq (p : Call → Bool) :
    issued.countP p = (EntityType.writeOrder.flatMap copies).countP p +
      (policy.countP p + (EntityType.writeOrder.reverse.flatMap deletes).countP p) := by
  rw [h.parts, List.countP_append, List.countP_append]

theorem countP_policy_eq_zero
    (hp : ∀ place body, p (.upsert settings.policiesIndex place body) = false) :
    policy.countP p = 0 := by
  have hpolicy := h.promoted
  split at hpolicy
  · obtain ⟨place, body, rfl⟩ := hpolicy
    simp [hp place body]
  · rw [hpolicy]
    rfl

theorem countOf_eq (type : EntityType) (operation : Operation) :
    report.countOf type operation =
      if operation = .remove then (deletes type).length
      else (plan type).countP fun change => change.operation == operation := by
  rw [Report.countOf, h.applied]
  exact countIn_tallied (fun hnone => by rw [h.idle type hnone]; rfl) operation

/-- Additions and updates are counted as upserts are issued for them. -/
theorem countOf_written (hindexes : settings.Separated) (hplan : Change.Regular (plan type))
    {operation : Operation} (hoperation : operation ≠ .remove) :
    report.countOf type operation =
      issued.countP (Call.writesFor settings type (plan type) operation) := by
  have hown : (copies type).countP (Call.writesFor settings type (plan type) operation) =
      (Change.writes (plan type)).countP fun change => change.operation == operation :=
    (h.copied type).countP_eq fun change hchange place body hbody =>
      writesFor_upsert hplan (List.mem_filter.mp hchange).1 operation place hbody
  have hother : ∀ other, other ≠ type →
      (copies other).countP (Call.writesFor settings type (plan type) operation) = 0 := by
    intro other hother
    refine (h.copied other).countP_eq_zero fun place body => ?_
    rw [Call.writesFor, beq_false_of_ne fun hsame => hother (hindexes.types hsame)]
    rfl
  rw [h.countP_eq, countP_flatMap_of_others nodup_writeOrder (mem_writeOrder type) hother, hown,
    h.countP_policy_eq_zero, countP_flatMap_eq_zero, h.countOf_eq, if_neg hoperation, Change.writes,
    List.countP_filter]
  · refine List.countP_congr fun change _ => ?_
    by_cases hsame : change.operation = operation
    · simp [hsame, hoperation]
    · simp [hsame]
  · exact fun other => (h.deleted other).countP_eq_zero fun _ => rfl
  · intro place body
    rw [Call.writesFor, beq_false_of_ne (hindexes.policies type).symm]
    rfl

/-- Removals are counted as deletes are issued. -/
theorem countOf_removed (hindexes : settings.Separated) (type : EntityType) :
    report.countOf type .remove = issued.countP (Call.deletesFrom (settings.indexFor type)) := by
  have hown : (deletes type).countP (Call.deletesFrom (settings.indexFor type)) =
      (deletes type).length :=
    (h.deleted type).countP_eq_length fun place => beq_self_eq_true _
  have hother : ∀ other, other ≠ type →
      (deletes other).countP (Call.deletesFrom (settings.indexFor type)) = 0 := by
    intro other hother
    exact (h.deleted other).countP_eq_zero fun place =>
      beq_false_of_ne fun hsame => hother (hindexes.types hsame)
  rw [h.countP_eq, countP_flatMap_eq_zero, h.countP_policy_eq_zero fun _ _ => rfl,
    countP_flatMap_of_others (by decide) (List.mem_reverse.mpr (mem_writeOrder type)) hother, hown,
    h.countOf_eq, if_pos rfl, Nat.zero_add, Nat.zero_add]
  exact fun other => (h.copied other).countP_eq_zero fun _ _ => rfl

/-- All counts together are those of the entities that were written or removed. -/
theorem total_eq_countP (hindexes : settings.Separated) :
    report.total = issued.countP (Call.changesEntity settings) := by
  have hcopies : ∀ type, (copies type).countP (Call.changesEntity settings) =
      (copies type).length := by
    intro type
    rw [← (h.copied type).length_eq, ← List.countP_true]
    exact (h.copied type).countP_eq fun _ _ place body _ => Call.changesEntity_upsert ..
  have hdeletes : ∀ type, (deletes type).countP (Call.changesEntity settings) =
      (deletes type).length :=
    fun type => (h.deleted type).countP_eq_length fun place => Call.changesEntity_delete ..
  have hpolicy : policy.countP (Call.changesEntity settings) = 0 := by
    refine h.countP_policy_eq_zero fun place body => ?_
    simp [Call.changesEntity, Call.index, (hindexes.policies _).symm]
  have hcounts : ∀ type, (Operation.all.map fun operation => countIn report.applied type
      operation).sum = (copies type).length + (deletes type).length := by
    intro type
    calc (Operation.all.map fun operation => countIn report.applied type operation).sum
        = report.countOf type .add + (report.countOf type .update + report.countOf type .remove) :=
          rfl
      _ = ((plan type).countP fun change => change.operation == .add) +
            (((plan type).countP fun change => change.operation == .update) +
              (deletes type).length) := by
          rw [h.countOf_eq, h.countOf_eq, h.countOf_eq]
          rfl
      _ = (copies type).length + (deletes type).length := by
          rw [← Nat.add_assoc, ← Change.length_writes, (h.copied type).length_eq]
  have hperm : EntityType.writeOrder.Perm EntityType.all := by decide
  calc report.total
      = (EntityType.all.map fun type => (copies type).length + (deletes type).length).sum := by
        rw [Report.total, total_eq (h.applied ▸ proper_tallied plan _)]
        exact congrArg List.sum (List.map_congr_left fun type _ => hcounts type)
    _ = (EntityType.writeOrder.map fun type => (copies type).length).sum +
          (EntityType.writeOrder.reverse.map fun type => (deletes type).length).sum := by
        rw [List.sum_map_add, (hperm.map _).sum_eq,
          (((List.reverse_perm _).trans hperm).map _).sum_eq]
    _ = issued.countP (Call.changesEntity settings) := by
        rw [h.countP_eq, hpolicy, Nat.zero_add, List.countP_flatMap, List.countP_flatMap]
        simp only [Function.comp_def, hcopies, hdeletes]

theorem policyUpdated_iff (hindexes : settings.Separated) :
    report.policyUpdated = true ↔ issued.countP (Call.upsertsTo settings.policiesIndex) = 1 := by
  have hcount : issued.countP (Call.upsertsTo settings.policiesIndex) =
      policy.countP (Call.upsertsTo settings.policiesIndex) := by
    rw [h.countP_eq, countP_flatMap_eq_zero, countP_flatMap_eq_zero, Nat.zero_add, Nat.add_zero]
    · exact fun type => (h.deleted type).countP_eq_zero fun _ => rfl
    · exact fun type => (h.copied type).countP_eq_zero fun _ _ =>
        beq_false_of_ne (hindexes.policies type)
  have hpolicy := h.promoted
  rw [hcount]
  split at hpolicy
  · rename_i hupdated
    obtain ⟨place, body, rfl⟩ := hpolicy
    simp [hupdated, Call.upsertsTo]
  · rename_i hkept
    simp [hkept, hpolicy]

theorem counting (hindexes : settings.Separated)
    (hplan : ∀ type, Change.Regular (plan type)) : report.Counting settings plan issued where
  proper := h.applied ▸ proper_tallied plan _
  written type _ hoperation := h.countOf_written hindexes (hplan type) hoperation
  removed := h.countOf_removed hindexes
  total := h.total_eq_countP hindexes
  named type := by rw [h.applied]; exact has_tallied plan _ type
  policy := h.policyUpdated_iff hindexes

end Composed

/-- A promotion that reports counts exactly the writes that it issued. What it wrote is what it
planned by the changes that it read behind the gate. -/
theorem promote_report (hbackend : deployment.backend = .memory)
    (hindexes : deployment.settings.Separated) {submitted : ChangeSet} {report : Report}
    (hrun : (promote space submitted).runOn deployment world = (.ok report, later)) :
    ∃ gated fresh read issued,
      (Gate.ensure space).runOn deployment world = (.ok (), gated) ∧
      (Preview.changesOf space).runOn deployment gated = (.ok fresh, read) ∧
      later.written = world.written ++ issued ∧
      report.Counting deployment.settings (plan submitted fresh) issued := by
  rw [promote] at hrun
  obtain ⟨target, start, htarget, hrun⟩ := Work.runOn_bind_ok hrun
  obtain ⟨-, rfl⟩ := Prod.mk.inj
    ((Work.runOn_ofExcept (Preview.successor space)).symm.trans htarget)
  obtain ⟨⟨⟩, gated, hgate, hrun⟩ := Work.runOn_bind_ok hrun
  obtain ⟨fresh, read, hfresh, hrun⟩ := Work.runOn_bind_ok hrun
  -- neither the gate nor the ledger writes
  obtain ⟨none, hgated, -, rfl⟩ := Work.issues_of_quiet (fun written =>
    Gate.meets_ensure (Contract.quiet_reads hbackend written) space) _ _ _ hgate
  obtain ⟨none, hread, -, rfl⟩ := Work.issues_of_quiet (fun written =>
    Preview.meets_changesOf (Contract.quiet_reads hbackend written) space) _ _ _ hfresh
  obtain ⟨issued, hissued, copies, policy, deletes, hcomposed⟩ :=
    issues_execute hbackend submitted.hasPolicyUpdate _ _ _ hrun
  refine ⟨gated, fresh, read, issued, hgate, hfresh, ?_, hcomposed.counting hindexes fun type =>
    Change.reconciled_regular _ _⟩
  rw [hissued, hread, hgated, List.append_nil, List.append_nil]

def plainBody (space : Space) (id : String) : Table Json :=
  [("space", .object [("name", .text space.name)]), ("document", .object [("id", .text id)])]

/-- A store with a decoder and a policy in `test`, and an older copy of the decoder and a rule in
`custom`. -/
def mixedTest : World :=
  { memory :=
      { mappings := contentIndexes.map fun index => (index, Memory.defaultMapping)
        indexes :=
          [(".cti-decoders", [("a", plainBody .test "x"), ("b", plainBody .custom "x")]),
           (".cti-rules", [("c", plainBody .custom "y")]),
           (".cti-policies", [("d", plainBody .test "p")])] } }

/-- A ledger that has an update for the decoder. -/
def mixedLedger : Deployment :=
  { fixedChanges := some (.object [("decoders",
      .list [.object [("id", .text "x"), ("operation", .text "update")]])]) }

/-- A request for the policy, the decoder as a new one, and two removals, of which one has no
copy. -/
def mixedRequest : ChangeSet :=
  { policy := [⟨"p", .update⟩]
    decoders := [⟨"d_x", .add⟩]
    rules := [⟨"y", .remove⟩, ⟨"z", .remove⟩] }

theorem separated_default : ({} : ContentSettings).Separated where
  types := by
    intro type other hsame
    cases type <;> cases other <;> first | rfl | exact absurd hsame (by decide)
  policies type := by cases type <;> decide

/-- The promotion issues three writes, and two of them are about entities. -/
theorem promote_report_mixedTest :
    ∃ report later fresh issued,
      (promote .test mixedRequest).runOn mixedLedger mixedTest = (.ok report, later) ∧
      later.written = issued ∧ issued.length = 3 ∧ report.total = 2 ∧
      report.Counting {} (plan mixedRequest fresh) issued := by
  have hfound : ((promote .test mixedRequest).runOn mixedLedger mixedTest).1.toOption.map
      Report.total = some 2 ∧
      ((promote .test mixedRequest).runOn mixedLedger mixedTest).2.written.length = 3 := by
    decide +kernel
  rcases hrun : (promote .test mixedRequest).runOn mixedLedger mixedTest with
    ⟨fault | report, later⟩
  · rw [hrun] at hfound
    cases hfound.1
  · rw [hrun] at hfound
    obtain ⟨-, fresh, -, issued, -, -, hissued, hreport⟩ :=
      promote_report rfl separated_default hrun
    have hwritten : later.written = issued := hissued
    exact ⟨report, later, fresh, issued, rfl, hwritten, hwritten ▸ hfound.2,
      Option.some.inj hfound.1, hreport⟩

end Commit

end Lifecycle
