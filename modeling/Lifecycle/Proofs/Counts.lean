import Lifecycle.Proofs.Execution

/-!
# What a promotion counts

A promotion reports, for each type of entity, how many copies were added, updated and removed. The
counts of additions and updates are those of the plan, and that of removals is the number of the
copies that were there to be removed (`Commit.countOf_reportOf`).
-/

namespace Lifecycle

theorem Operation.name_injective {operation other : Operation}
    (h : operation.name = other.name) : operation = other := by
  cases operation <;> cases other <;> first | rfl | exact absurd h (by decide)

theorem EntityType.name_injective {type other : EntityType} (h : type.name = other.name) :
    type = other := by
  cases type <;> cases other <;> first | rfl | exact absurd h (by decide)

namespace Commit

variable {plan : EntityType → List Change} {docs : EntityType → Documents} {space target : Space}

/-! ### Counts of one type -/

/-- How often an operation stands in some counts. -/
def Counts.of (counts : Counts) (operation : Operation) : Nat :=
  (Table.get? counts operation.name).getD 0

theorem Counts.of_add (counts : Counts) (operation other : Operation) :
    (Counts.add counts operation).of other =
      Counts.of counts other + if operation = other then 1 else 0 := by
  rw [Counts.of, Counts.add, Table.get?_put, Counts.of]
  by_cases hsame : operation = other
  · subst hsame
    rw [if_pos rfl, if_pos rfl, Option.getD_some]
  · rw [if_neg (mt Operation.name_injective hsame), if_neg hsame, Nat.add_zero]

theorem of_counted (changes : List Change) (counts : Counts) (operation : Operation) :
    (counted changes counts).of operation =
      Counts.of counts operation + changes.countP fun change => change.operation == operation := by
  induction changes generalizing counts with
  | nil => rfl
  | cons change rest ih =>
    have hstep : counted (change :: rest) counts =
        counted rest (Counts.add counts change.operation) := rfl
    rw [hstep, ih, Counts.of_add, List.countP_cons]
    simp only [beq_iff_eq]
    omega

theorem distinct_counted (changes : List Change) {counts : Counts}
    (h : Table.Distinct counts) : Table.Distinct (counted changes counts) :=
  List.foldlRecOn changes _ h fun _ hcounts change _ => hcounts.put change.operation.name _

/-! ### Counts of all types -/

/-- How often an operation was applied to a type, by the counts of all types. -/
def countIn (applied : Table Counts) (type : EntityType) (operation : Operation) : Nat :=
  Counts.of ((applied.get? type.name).getD []) operation

/-- Counts that are recorded of a type go before those that were recorded of it earlier. -/
theorem countIn_record (applied : Table Counts) (type other : EntityType) {counts : Counts}
    (h : Table.Distinct counts) (operation : Operation) :
    countIn (record applied type counts) other operation =
      if type = other then
        (Table.get? counts operation.name).getD (countIn applied other operation)
      else countIn applied other operation := by
  rw [countIn, record, Table.get?_put]
  by_cases hsame : type = other
  · subst hsame
    rw [if_pos rfl, if_pos rfl, Option.getD_some, Counts.of, Table.get?_putAll h]
    cases Table.get? counts operation.name <;> rfl
  · rw [if_neg (mt EntityType.name_injective hsame), if_neg hsame, countIn]

/-- In a pass over types that records counts of some of them, the last ones recorded of each type
go before the earlier ones. -/
theorem countIn_foldl_record {skip : EntityType → Bool} {counts : EntityType → Counts}
    (hcounts : ∀ type, Table.Distinct (counts type)) {types : List EntityType}
    (hdistinct : types.Nodup) (applied : Table Counts) (type : EntityType)
    (operation : Operation) :
    countIn (types.foldl (fun applied type =>
        if skip type then applied else record applied type (counts type)) applied) type operation =
      if type ∈ types ∧ skip type = false then
        (Table.get? (counts type) operation.name).getD (countIn applied type operation)
      else countIn applied type operation := by
  induction types generalizing applied with
  | nil => simp
  | cons first rest ih =>
    obtain ⟨hfirst, hrest⟩ := List.nodup_cons.mp hdistinct
    rw [List.foldl_cons, ih hrest]
    by_cases hsame : type = first
    · -- the rest of the types does not come to this one again
      subst hsame
      rw [if_neg fun hmem => hfirst hmem.1]
      cases hskip : skip type with
      | true => simp
      | false => simp [countIn_record _ _ _ (hcounts type)]
    · have hother : countIn (if skip first then applied else record applied first (counts first))
          type operation = countIn applied type operation := by
        cases skip first with
        | true => rfl
        | false =>
          rw [if_neg Bool.false_ne_true, countIn_record _ _ _ (hcounts first),
            if_neg (Ne.symm hsame)]
      rw [hother]
      simp [hsame]

/-- A pass over types that writes their copies counts the writes that are planned. -/
theorem countIn_writtenCounts {types : List EntityType} (hdistinct : types.Nodup)
    {type : EntityType} (htype : type ∈ types) (operation : Operation) :
    countIn (writtenCounts plan types []) type operation =
      (Change.writes (plan type)).countP fun change => change.operation == operation := by
  have hcounted := of_counted (Change.writes (plan type)) [] operation
  rw [Counts.of, show Counts.of [] operation = 0 from rfl, Nat.zero_add] at hcounted
  rw [writtenCounts, countIn_foldl_record (fun type => distinct_counted _ Table.Distinct.nil)
    hdistinct]
  cases hwrites : Change.writes (plan type) with
  | nil => simp [countIn, Counts.of]
  | cons change rest =>
    rw [← hwrites, if_pos ⟨htype, by rw [hwrites]; rfl⟩]
    exact hcounted

/-- The counts after numbers of removed copies are recorded of those of some types that have planned
removals. -/
def recordRemovals (plan : EntityType → List Change) (removed : EntityType → Nat)
    (types : List EntityType) (applied : Table Counts) : Table Counts :=
  types.foldl (fun applied type =>
    if (Change.removals (plan type)).isEmpty then applied
    else record applied type [(Operation.remove.name, removed type)]) applied

theorem countIn_recordRemovals {removed : EntityType → Nat} {types : List EntityType}
    (hdistinct : types.Nodup) {applied : Table Counts} {type : EntityType} (htype : type ∈ types)
    (hnone : Change.removals (plan type) = [] → removed type = 0)
    (hnew : countIn applied type .remove = 0) (operation : Operation) :
    countIn (recordRemovals plan removed types applied) type operation =
      if operation = .remove then removed type else countIn applied type operation := by
  have hone : ∀ type, Table.Distinct [(Operation.remove.name, removed type)] :=
    fun type => List.nodup_singleton _
  rw [recordRemovals, countIn_foldl_record hone hdistinct]
  by_cases hremove : operation = .remove
  · subst hremove
    rw [if_pos rfl, hnew]
    by_cases hempty : Change.removals (plan type) = []
    · rw [hnone hempty]
      simp [hempty]
    · rw [if_pos ⟨htype, by simpa using hempty⟩]
      simp [Table.get?]
  · have hname : Operation.remove.name ≠ operation.name :=
      fun heq => hremove (Operation.name_injective heq).symm
    simp [Table.get?, hname, hremove]

/-- The counts of a commit that writes what is planned and removes some copies of each type. -/
def tallied (plan : EntityType → List Change) (removed : EntityType → Nat) : Table Counts :=
  recordRemovals plan removed EntityType.writeOrder.reverse
    (writtenCounts plan EntityType.writeOrder [])

/-- The additions and updates that are counted are those of the plan. -/
theorem countIn_tallied {removed : EntityType → Nat} {type : EntityType}
    (hnone : Change.removals (plan type) = [] → removed type = 0) (operation : Operation) :
    countIn (tallied plan removed) type operation =
      if operation = .remove then removed type
      else (plan type).countP fun change => change.operation == operation := by
  have hreverse : EntityType.writeOrder.reverse.Nodup := by decide
  have hwritten : ∀ operation, countIn (writtenCounts plan EntityType.writeOrder []) type
      operation = _ := countIn_writtenCounts nodup_writeOrder (mem_writeOrder type)
  have hnew : countIn (writtenCounts plan EntityType.writeOrder []) type .remove = 0 := by
    rw [hwritten, List.countP_eq_zero]
    intro change hmem
    simpa [Change.writes] using (List.mem_filter.mp hmem).2
  rw [tallied, countIn_recordRemovals hreverse (List.mem_reverse.mpr (mem_writeOrder type)) hnone
    hnew]
  by_cases hremove : operation = .remove
  · rw [if_pos hremove, if_pos hremove]
  · -- what is not a removal is counted as it is planned
    rw [if_neg hremove, if_neg hremove, hwritten, Change.writes, List.countP_filter]
    refine List.countP_congr fun change _ => ?_
    by_cases hoperation : change.operation = operation
    · simp [hoperation, hremove]
    · simp [hoperation]

/-! ### Reports -/

/-- How often a report says that an operation was applied to a type. -/
def Report.countOf (report : Report) (type : EntityType) (operation : Operation) : Nat :=
  countIn report.applied type operation

/-- A commit that performs its script counts the additions and updates that were planned, and the
copies that were there to be removed. -/
theorem countOf_reportOf (source current : Option PolicyRecord) (type : EntityType)
    (operation : Operation) :
    (reportOf docs plan space target source current).countOf type operation =
      if operation = .remove then present (docs type) target (removalIds plan type)
      else (plan type).countP fun change => change.operation == operation := by
  have happlied : (reportOf docs plan space target source current).applied =
      tallied plan fun type => present (docs type) target (removalIds plan type) := rfl
  -- of a type without removals there is nothing to be counted
  have hnone : Change.removals (plan type) = [] →
      present (docs type) target (removalIds plan type) = 0 := by
    intro hremovals
    rw [removalIds, hremovals]
    rfl
  rw [Report.countOf, happlied, countIn_tallied hnone]

end Commit

end Lifecycle
