import Lifecycle.Proofs.Execution

/-!
# Commits that are halted

A commit that is halted has performed a beginning of its script, and the beginning of a script is a
script again: of the first writes of each type, where later types have none before the earlier ones
have all; then, with all writes, of the policy; then of the first removals of each type in the
reverse order (`Commit.prefix_script`). So what is said of the documents after a script holds at
each point that a commit can be halted at.
-/

namespace Lifecycle.Commit

variable {space target : Space}

/-! ### Beginnings of passes -/

/-- The beginning of two lists in a row ends within the first one, or is all of it and a beginning
of the second one. -/
theorem prefix_within_or_behind {calls more past : List Call} (h : past <+: calls ++ more) :
    past <+: calls ∨ ∃ rest, rest <+: more ∧ past = calls ++ rest := by
  have hwhole := List.prefix_append calls more
  by_cases hshort : past.length ≤ calls.length
  · exact .inl (List.prefix_of_prefix_length_le h hwhole hshort)
  · obtain ⟨rest, rfl⟩ := List.prefix_of_prefix_length_le hwhole h (by omega)
    exact .inr ⟨rest, (List.prefix_append_right_inj calls).mp h, rfl⟩

/-- The beginning of a pass over types is a pass over beginnings, of which the later ones are empty
unless the earlier ones are whole. -/
theorem prefix_flatMap {calls : EntityType → List String → List Call}
    (hcalls : ∀ type ids past, past <+: calls type ids →
      ∃ done, done <+: ids ∧ past = calls type done)
    (hnone : ∀ type, calls type [] = []) (ids : EntityType → List String)
    {types : List EntityType} (hdistinct : types.Nodup) {past : List Call}
    (h : past <+: types.flatMap fun type => calls type (ids type)) :
    ∃ done : EntityType → List String, (∀ type, done type <+: ids type) ∧
      types.Pairwise (fun earlier later => done later = [] ∨ done earlier = ids earlier) ∧
      past = types.flatMap fun type => calls type (done type) := by
  induction types generalizing past with
  | nil => exact ⟨fun _ => [], fun _ => List.nil_prefix, .nil, List.prefix_nil.mp h⟩
  | cons type rest ih =>
    obtain ⟨hnew, hrest⟩ := List.nodup_cons.mp hdistinct
    have hother : ∀ other ∈ rest, other ≠ type := fun other hmem heq => hnew (heq ▸ hmem)
    rw [List.flatMap_cons] at h
    rcases prefix_within_or_behind h with hwithin | ⟨more, hmore, rfl⟩
    · -- it ends within the first type, so that none of the others has begun
      obtain ⟨first, hfirst, rfl⟩ := hcalls type (ids type) past hwithin
      have hempty : ∀ other ∈ rest, Function.update (fun _ => []) type first other = [] :=
        fun other hmem => Function.update_of_ne (hother other hmem) _ _
      refine ⟨Function.update (fun _ => []) type first, fun other => ?_, ?_, ?_⟩
      · by_cases hsame : other = type
        · subst hsame
          rwa [Function.update_self]
        · rw [Function.update_of_ne hsame]
          exact List.nil_prefix
      · refine List.pairwise_cons.mpr ⟨fun later hlater => .inl (hempty later hlater), ?_⟩
        exact List.pairwise_of_forall_mem_list fun _ _ later hlater => .inl (hempty later hlater)
      · have hnothing : (rest.flatMap fun other =>
            calls other (Function.update (fun _ => []) type first other)) = [] := by
          rw [List.flatMap_eq_nil_iff]
          intro other hmem
          rw [hempty other hmem, hnone]
        rw [List.flatMap_cons, Function.update_self, hnothing, List.append_nil]
    · -- the first type is whole, and the rest is a beginning of what follows
      obtain ⟨done, hdone, horder, rfl⟩ := ih hrest hmore
      have hsame : ∀ other ∈ rest, Function.update done type (ids type) other = done other :=
        fun other hmem => Function.update_of_ne (hother other hmem) _ _
      refine ⟨Function.update done type (ids type), fun other => ?_, ?_, ?_⟩
      · by_cases heq : other = type
        · subst heq
          simp only [Function.update_self, List.prefix_rfl]
        · rw [Function.update_of_ne heq]
          exact hdone other
      · refine List.pairwise_cons.mpr ⟨fun later _ => .inr (Function.update_self ..), ?_⟩
        refine horder.imp_of_mem fun {earlier later} hearlier hlater hor => ?_
        rwa [hsame earlier hearlier, hsame later hlater]
      · rw [List.flatMap_cons, Function.update_self]
        congr 1
        exact List.flatMap_congr fun other hmem => by rw [hsame other hmem]

theorem prefix_copyCalls (docs : Documents) (type : EntityType) (ids : List String)
    (past : List Call) (h : past <+: copyCalls docs type space target ids) :
    ∃ done, done <+: ids ∧ past = copyCalls docs type space target done :=
  List.prefix_map_iff.mp h

theorem prefix_removalCalls (docs : Documents) (type : EntityType) (ids : List String)
    (past : List Call) (h : past <+: removalCalls docs type target ids) :
    ∃ done, done <+: ids ∧ past = removalCalls docs type target done :=
  List.prefix_filterMap_iff.mp h

/-! ### Beginnings of scripts -/

/-- How far a script has come: which of its writes and removals were made, and which of its calls
for the policy. -/
structure Reached (writes removals : EntityType → List String) (policy : List Call)
    (writes' removals' : EntityType → List String) (policy' : List Call) : Prop where
  written : ∀ type, writes' type <+: writes type
  removed : ∀ type, removals' type <+: removals type
  writtenInOrder : EntityType.writeOrder.Pairwise fun earlier later =>
    writes' later = [] ∨ writes' earlier = writes earlier
  removedInOrder : EntityType.writeOrder.reverse.Pairwise fun earlier later =>
    removals' later = [] ∨ removals' earlier = removals earlier
  stage : (policy' = [] ∧ ∀ type, removals' type = []) ∨ (policy' = policy ∧ writes' = writes)

/-- The beginning of a script with one call at most for the policy is a script. -/
theorem prefix_script {docs : EntityType → Documents} {writes removals : EntityType → List String}
    {policy past : List Call} (hpolicy : policy.length ≤ 1)
    (h : past <+: script docs space target writes removals policy) :
    ∃ writes' removals' policy', Reached writes removals policy writes' removals' policy' ∧
      past = script docs space target writes' removals' policy' := by
  have hnothing : (EntityType.writeOrder.reverse.flatMap fun type =>
      removalCalls (docs type) type target []) = [] :=
    List.flatMap_eq_nil_iff.mpr fun _ _ => rfl
  have hnone : EntityType.writeOrder.reverse.Pairwise fun earlier later : EntityType =>
      ([] : List String) = [] ∨ [] = removals earlier :=
    List.pairwise_of_forall fun _ _ => .inl rfl
  have hall : EntityType.writeOrder.Pairwise fun earlier later : EntityType =>
      writes later = [] ∨ writes earlier = writes earlier :=
    List.pairwise_of_forall fun _ _ => .inr rfl
  rw [script] at h
  rcases prefix_within_or_behind h with hwithin | ⟨more, hmore, rfl⟩
  · -- some of the writes
    obtain ⟨done, hdone, horder, rfl⟩ := prefix_flatMap
      (fun type => prefix_copyCalls (docs type) type) (fun _ => rfl) writes nodup_writeOrder hwithin
    refine ⟨done, fun _ => [], [], ⟨hdone, fun _ => List.nil_prefix, horder, hnone,
      .inl ⟨rfl, fun _ => rfl⟩⟩, ?_⟩
    rw [script, hnothing, List.append_nil, List.append_nil]
  rcases prefix_within_or_behind hmore with hwithin | ⟨rest, hrest, rfl⟩
  · -- all writes, and the policy or not
    have hcalls : more = [] ∨ more = policy := by
      rcases Nat.eq_zero_or_pos more.length with hzero | hpos
      · exact .inl (List.eq_nil_of_length_eq_zero hzero)
      · exact .inr (hwithin.eq_of_length_le (by omega))
    rcases hcalls with rfl | rfl
    · refine ⟨writes, fun _ => [], [], ⟨fun _ => List.prefix_refl _, fun _ => List.nil_prefix, hall,
        hnone, .inl ⟨rfl, fun _ => rfl⟩⟩, ?_⟩
      rw [script, hnothing, List.nil_append]
    · refine ⟨writes, fun _ => [], more, ⟨fun _ => List.prefix_refl _, fun _ => List.nil_prefix,
        hall, hnone, .inr ⟨rfl, rfl⟩⟩, ?_⟩
      rw [script, hnothing, List.append_nil]
  · -- all writes, the policy, and some of the removals
    obtain ⟨done, hdone, horder, rfl⟩ := prefix_flatMap
      (fun type => prefix_removalCalls (docs type) type) (fun _ => rfl) removals (by decide) hrest
    exact ⟨writes, done, policy, ⟨fun _ => List.prefix_refl _, hdone, hall, horder,
      .inr ⟨rfl, rfl⟩⟩, rfl⟩

variable {writes removals writes' removals' : EntityType → List String}
  {policy policy' : List Call} {type : EntityType}

/-- Integrations are written when everything else is. -/
theorem Reached.written_before (h : Reached writes removals policy writes' removals' policy')
    (htype : type ≠ .integrations) :
    writes' .integrations = [] ∨ writes' type = writes type := by
  have horder := h.writtenInOrder
  simp only [EntityType.writeOrder, List.pairwise_cons, List.mem_cons] at horder
  cases type with
  | integrations => exact absurd rfl htype
  | kvdbs => exact horder.1 .integrations (by simp)
  | decoders => exact horder.2.1 .integrations (by simp)
  | rules => exact horder.2.2.1 .integrations (by simp)

/-- Other copies are removed when all integrations are written and removed. -/
theorem Reached.removed_behind (h : Reached writes removals policy writes' removals' policy')
    (htype : type ≠ .integrations) (hsome : removals' type ≠ []) :
    writes' .integrations = writes .integrations ∧
      removals' .integrations = removals .integrations := by
  have horder := h.removedInOrder
  simp only [EntityType.writeOrder, List.reverse_cons, List.reverse_nil, List.nil_append,
    List.cons_append, List.pairwise_cons] at horder
  have hmem : type ∈ [EntityType.rules, .decoders, .kvdbs] := by
    cases type with
    | integrations => exact absurd rfl htype
    | _ => decide
  refine ⟨?_, (horder.1 type hmem).resolve_left hsome⟩
  rcases h.stage with ⟨-, hnone⟩ | ⟨-, hall⟩
  · exact absurd (hnone type) hsome
  · rw [hall]

theorem length_policyScript_le (target : Space) (source current : Option PolicyRecord)
    (time : Instant) : (policyScript target source current time).length ≤ 1 := by
  cases source with
  | none => exact Nat.zero_le 1
  | some source =>
    show (policyCalls target source current time).length ≤ 1
    rw [policyCalls]
    split_ifs
    · exact Nat.zero_le 1
    · exact Nat.le_refl 1

end Lifecycle.Commit
