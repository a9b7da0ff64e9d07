import Mathlib.Data.List.Nodup
import Lifecycle.Policy

/-!
# The order of merged lists

What it means that an item stands before another one in a list that may have both several times
(`Before`), and what this is in a list without repetitions (`before_distinct`) and in the merge of a
wanted order with a stored list (`before_mergedOrder`). The merge has each item of the stored list
once and no other (`nodup_mergedOrder`, `mem_mergedOrder`). It is settled: merging the same wanted
order into it changes nothing (`mergedOrder_mergedOrder`), and an order that has all items of the
stored list is taken as it is (`mergedOrder_of_perm`).
-/

namespace Lifecycle

variable {items wanted stored : List String} {a b id : String}

/-! ### Lists without repetitions -/

theorem mem_distinct : id ∈ distinct items ↔ id ∈ items := List.mem_eraseDups

/-- Repetitions can be left out before or after other items are. -/
theorem distinct_filter (keep : String → Bool) :
    ∀ items : List String, distinct (items.filter keep) = (distinct items).filter keep
  | [] => rfl
  | item :: rest => by
    have hrest := distinct_filter keep (rest.filter fun other => !other == item)
    unfold distinct at hrest ⊢
    rw [List.eraseDups_cons, List.filter_cons, List.filter_cons, ← hrest, List.filter_filter]
    by_cases hkeep : keep item = true
    · rw [if_pos hkeep, if_pos hkeep, List.eraseDups_cons, List.filter_filter]
      simp only [Bool.and_comm]
    · rw [if_neg hkeep, if_neg hkeep]
      congr 1
      -- an item that is not kept is not among the others that are
      refine List.filter_congr fun other _ => ?_
      by_cases hother : other = item
      · simp [hother, hkeep]
      · simp [hother]
  termination_by items => items.length
  decreasing_by exact Nat.lt_succ_of_le (List.length_filter_le _ _)

theorem distinct_cons (item : String) (rest : List String) :
    distinct (item :: rest) = item :: (distinct rest).filter fun other => !other == item := by
  rw [distinct, List.eraseDups_cons, ← distinct, distinct_filter]

theorem nodup_distinct (items : List String) : (distinct items).Nodup := by
  induction items with
  | nil => exact List.nodup_nil
  | cons item rest ih =>
    rw [distinct_cons, List.nodup_cons]
    exact ⟨by simp, ih.filter _⟩

theorem distinct_of_nodup (h : items.Nodup) : distinct items = items := by
  induction items with
  | nil => rfl
  | cons item rest ih =>
    obtain ⟨hnew, hrest⟩ := List.nodup_cons.mp h
    rw [distinct_cons, ih hrest, List.filter_eq_self.mpr]
    intro other hother
    have hne : other ≠ item := fun heq => hnew (heq ▸ hother)
    simpa using hne

/-- An item that was there before is left out. -/
theorem distinct_append_cons (h : id ∈ items) (rest : List String) :
    distinct (items ++ id :: rest) = distinct (items ++ rest) := by
  have hremoved : (id :: rest).removeAll items = rest.removeAll items := by
    simp [List.removeAll, h]
  rw [distinct, distinct, List.eraseDups_append, List.eraseDups_append, hremoved]

/-! ### What stands before what -/

/-- The first occurrence of an item is before that of another one. -/
def Before (items : List String) (a b : String) : Prop := items.idxOf a < items.idxOf b

theorem before_cons {item : String} {rest : List String} :
    Before (item :: rest) a b ↔ b ≠ item ∧ (a = item ∨ Before rest a b) := by
  unfold Before
  by_cases hb : b = item
  · subst hb
    simp
  · rw [List.idxOf_cons_ne _ (Ne.symm hb)]
    by_cases ha : a = item
    · subst ha
      simp [hb]
    · rw [List.idxOf_cons_ne _ (Ne.symm ha)]
      simp [hb, ha]

/-- Items that are kept stand as they did. -/
theorem before_filter {keep : String → Bool} (ha : keep a = true) (hb : keep b = true) :
    Before (items.filter keep) a b ↔ Before items a b := by
  induction items with
  | nil => rfl
  | cons item rest ih =>
    rw [List.filter_cons]
    by_cases hkeep : keep item = true
    · rw [if_pos hkeep, before_cons, before_cons, ih]
    · have hne : a ≠ item ∧ b ≠ item :=
        ⟨fun heq => hkeep (heq ▸ ha), fun heq => hkeep (heq ▸ hb)⟩
      rw [if_neg hkeep, before_cons, ih]
      simp [hne]

/-- Leaving out repetitions changes no order. -/
theorem before_distinct : Before (distinct items) a b ↔ Before items a b := by
  induction items with
  | nil => rfl
  | cons item rest ih =>
    rw [distinct_cons, before_cons, before_cons]
    refine and_congr_right fun hb => ?_
    by_cases ha : a = item
    · simp [ha]
    · rw [before_filter (by simpa using ha) (by simpa using hb), ih]

theorem before_append {front back : List String} :
    Before (front ++ back) a b ↔
      (a ∈ front ∧ b ∉ front) ∨ (a ∈ front ∧ b ∈ front ∧ Before front a b) ∨
        (a ∉ front ∧ b ∉ front ∧ Before back a b) := by
  unfold Before
  by_cases ha : a ∈ front
  · have hfront := List.idxOf_lt_length_iff.mpr ha
    by_cases hb : b ∈ front
    · simp [List.idxOf_append, ha, hb]
    · have hbehind : front.idxOf a < back.idxOf b + front.length := Nat.lt_add_left _ hfront
      simp [List.idxOf_append, ha, hb, hbehind]
  · by_cases hb : b ∈ front
    · have hfront := List.idxOf_lt_length_iff.mpr hb
      have hbehind : ¬back.idxOf a + front.length < front.idxOf b := by omega
      simpa [List.idxOf_append, ha, hb] using hbehind
    · simp [List.idxOf_append, ha, hb]

/-! ### Merging -/

/-- The part of a merge that stands as it is wanted. -/
def wantedPart (wanted stored : List String) : List String :=
  (distinct wanted).filter fun id => stored.contains id

theorem mem_wantedPart : id ∈ wantedPart wanted stored ↔ id ∈ wanted ∧ id ∈ stored := by
  simp [wantedPart, mem_distinct]

theorem mergedOrder_eq (wanted stored : List String) :
    mergedOrder wanted stored = wantedPart wanted stored ++
      (distinct stored).filter fun id => !(wantedPart wanted stored).contains id :=
  rfl

/-- A merge has the items of the stored list. -/
theorem mem_mergedOrder (wanted stored : List String) (id : String) :
    id ∈ mergedOrder wanted stored ↔ id ∈ stored := by
  simp only [mergedOrder_eq, List.mem_append, List.mem_filter, mem_distinct, mem_wantedPart,
    List.contains_iff_mem, Bool.not_eq_true', ← Bool.not_eq_true]
  tauto

theorem nodup_mergedOrder (wanted stored : List String) : (mergedOrder wanted stored).Nodup := by
  rw [mergedOrder_eq, List.nodup_append']
  refine ⟨(nodup_distinct _).filter _, (nodup_distinct _).filter _, fun id hfront hback => ?_⟩
  simpa [hfront] using (List.mem_filter.mp hback).2

/-- Of two items of the stored list, one stands before the other in the merge if it is wanted and
the other one is not, or by the wanted order if both are, or else by the stored one. -/
theorem before_mergedOrder (ha : a ∈ stored) (hb : b ∈ stored) :
    Before (mergedOrder wanted stored) a b ↔
      (a ∈ wanted ∧ b ∉ wanted) ∨ (a ∈ wanted ∧ b ∈ wanted ∧ Before wanted a b) ∨
        (a ∉ wanted ∧ b ∉ wanted ∧ Before stored a b) := by
  have hfront : ∀ {id}, id ∈ stored → (id ∈ wantedPart wanted stored ↔ id ∈ wanted) :=
    fun hid => mem_wantedPart.trans (and_iff_left hid)
  rw [mergedOrder_eq, before_append, hfront ha, hfront hb]
  refine or_congr_right (or_congr ?_ ?_)
  · rw [wantedPart, before_filter (by simpa using ha) (by simpa using hb), before_distinct]
  · refine and_congr_right fun hna => and_congr_right fun hnb => ?_
    rw [before_filter (by simpa [hfront ha] using hna) (by simpa [hfront hb] using hnb),
      before_distinct]

/-- Merging the same wanted order once more changes nothing. -/
theorem mergedOrder_mergedOrder (wanted stored : List String) :
    mergedOrder wanted (mergedOrder wanted stored) = mergedOrder wanted stored := by
  have hpart : wantedPart wanted (mergedOrder wanted stored) = wantedPart wanted stored := by
    refine List.filter_congr fun id _ => ?_
    rw [Bool.eq_iff_iff, List.contains_iff_mem, List.contains_iff_mem, mem_mergedOrder]
  have hfront : (wantedPart wanted stored).filter
      (fun id => !(wantedPart wanted stored).contains id) = [] := by
    rw [List.filter_eq_nil_iff]
    intro id hid
    simpa using hid
  rw [mergedOrder_eq wanted (mergedOrder wanted stored), hpart,
    distinct_of_nodup (nodup_mergedOrder wanted stored), mergedOrder_eq, List.filter_append,
    hfront, List.nil_append, List.filter_filter]
  simp only [Bool.and_self]

/-- A wanted order that has all items of the stored list, each once, is the merge. -/
theorem mergedOrder_of_perm (h : wanted.Perm (distinct stored)) :
    mergedOrder wanted stored = wanted := by
  have hmem : ∀ id, id ∈ wanted ↔ id ∈ stored := fun id => h.mem_iff.trans mem_distinct
  have hfront : wantedPart wanted stored = wanted := by
    rw [wantedPart, distinct_of_nodup (h.nodup_iff.mpr (nodup_distinct stored)),
      List.filter_eq_self.mpr]
    intro id hid
    simpa [hmem] using hid
  rw [mergedOrder_eq, hfront, List.filter_eq_nil_iff.mpr, List.append_nil]
  intro id hid
  simpa [hmem, mem_distinct] using hid

/-- What a merge of a wanted order with a stored list is. -/
structure IsMerge (wanted stored merged : List String) : Prop where
  nodup : merged.Nodup
  mem : ∀ id, id ∈ merged ↔ id ∈ stored
  /-- Items that are wanted stand first and in the wanted order, the others as they are stored. -/
  order : ∀ a ∈ stored, ∀ b ∈ stored, Before merged a b ↔
    (a ∈ wanted ∧ b ∉ wanted) ∨ (a ∈ wanted ∧ b ∈ wanted ∧ Before wanted a b) ∨
      (a ∉ wanted ∧ b ∉ wanted ∧ Before stored a b)

theorem isMerge_mergedOrder (wanted stored : List String) :
    IsMerge wanted stored (mergedOrder wanted stored) :=
  ⟨nodup_mergedOrder wanted stored, mem_mergedOrder wanted stored,
    fun _ ha _ hb => before_mergedOrder ha hb⟩

end Lifecycle
