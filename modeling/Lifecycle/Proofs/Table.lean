import Mathlib.Data.List.Nodup
import Lifecycle.Table

/-!
# Laws of tables

A table is *distinct* when no two of its entries share a key. Objects, indexes and the contents of
an index are distinct, and every write keeps them so (`Distinct.put`, `Distinct.remove`). In a
distinct table an entry is found exactly when it is a member (`Distinct.get?_eq_some_iff`), and
what a write does to the list of entries can be said entry by entry (`Distinct.mem_put`,
`mem_remove`), or for all entries that it is not about at once (`filter_put`, `filter_remove`).
-/

namespace Lifecycle.Table

variable {α : Type u}

/-! ### Distinct keys -/

/-- No two entries share a key. -/
def Distinct (t : Table α) : Prop := (keys t).Nodup

instance (t : Table α) : Decidable (Distinct t) := inferInstanceAs (Decidable (keys t).Nodup)

theorem Distinct.nil : Distinct ([] : Table α) := List.nodup_nil

theorem Distinct.tail {entry : String × α} {t : Table α} (h : Distinct (entry :: t)) :
    Distinct t :=
  (List.nodup_cons.mp h).2

/-- The key of the first entry of a distinct table is not among the others. -/
theorem Distinct.head_not_mem {entry : String × α} {t : Table α} (h : Distinct (entry :: t)) :
    entry.1 ∉ keys t :=
  (List.nodup_cons.mp h).1

theorem Distinct.filter {t : Table α} (h : Distinct t) (p : String × α → Bool) :
    Distinct (List.filter p t) :=
  List.Sublist.nodup (List.filter_sublist.map Prod.fst) h

theorem mem_keys_of_mem {t : Table α} {key : String} {v : α} (h : (key, v) ∈ t) :
    key ∈ keys t :=
  List.mem_map.mpr ⟨(key, v), h, rfl⟩

/-! ### Looking up -/

theorem get?_eq_none_iff (t : Table α) (key : String) : get? t key = none ↔ key ∉ keys t := by
  induction t with
  | nil => simp [keys]
  | cons entry rest ih =>
    obtain ⟨k, w⟩ := entry
    simp only [keys] at ih
    by_cases h : k = key
    · simp [get?, keys, h]
    · simp [get?, keys, h, ih, Ne.symm h]

/-- What is found under a key stands in the table under it. -/
theorem mem_of_get? {t : Table α} {key : String} {v : α} (h : get? t key = some v) :
    (key, v) ∈ t := by
  induction t with
  | nil => simp at h
  | cons entry rest ih =>
    obtain ⟨k, w⟩ := entry
    by_cases hk : k = key
    · simp only [get?, hk, if_true, Option.some.injEq] at h
      rw [hk, h]
      exact List.mem_cons_self
    · simp only [get?, hk, if_false] at h
      exact List.mem_cons_of_mem _ (ih h)

theorem mem_keys_of_get? {t : Table α} {key : String} {v : α} (h : get? t key = some v) :
    key ∈ keys t :=
  mem_keys_of_mem (mem_of_get? h)

theorem has_eq_true_iff (t : Table α) (key : String) : has t key = true ↔ key ∈ keys t := by
  rw [has, Option.isSome_iff_ne_none, Ne, get?_eq_none_iff, not_not]

/-- In a distinct table what stands under a key is what is found there. -/
theorem Distinct.get?_eq_some_iff {t : Table α} (h : Distinct t) (key : String) (v : α) :
    get? t key = some v ↔ (key, v) ∈ t := by
  refine ⟨mem_of_get?, fun hmem => ?_⟩
  induction t with
  | nil => simp at hmem
  | cons entry rest ih =>
    obtain ⟨k, w⟩ := entry
    rcases List.mem_cons.mp hmem with heq | hrest
    · obtain ⟨rfl, rfl⟩ := Prod.mk.inj heq
      simp [get?]
    · have hne : k ≠ key := fun hk => h.head_not_mem (hk ▸ mem_keys_of_mem hrest)
      simp only [get?, hne, if_false]
      exact ih h.tail hrest

/-! ### Writing -/

/-- A write under a new key appends. -/
theorem put_of_not_mem {t : Table α} {key : String} (h : key ∉ keys t) (v : α) :
    put t key v = t ++ [(key, v)] := by
  induction t with
  | nil => rfl
  | cons entry rest ih =>
    obtain ⟨k, w⟩ := entry
    obtain ⟨hk, hrest⟩ := not_or.mp (mt List.mem_cons.mpr h)
    rw [put, if_neg (Ne.symm hk), ih hrest, List.cons_append]

/-- A write of the value that is there changes nothing. -/
theorem put_eq_self {t : Table α} {key : String} {v : α} (h : get? t key = some v) :
    put t key v = t := by
  induction t with
  | nil => cases h
  | cons entry rest ih =>
    obtain ⟨k, w⟩ := entry
    rw [get?] at h
    rw [put]
    by_cases hk : k = key
    · rw [if_pos hk] at h ⊢
      rw [Option.some.inj h]
    · rw [if_neg hk] at h ⊢
      rw [ih h]

theorem put_put (t : Table α) (key : String) (v w : α) :
    put (put t key v) key w = put t key w := by
  induction t with
  | nil => simp [put]
  | cons entry rest ih =>
    obtain ⟨k, u⟩ := entry
    by_cases hk : k = key
    · simp [put, hk]
    · simp [put, hk, ih]

/-- Writes under different keys can be made in either order, if one of the keys is there. -/
theorem put_comm {t : Table α} {key other : String} (hkey : key ∈ keys t) (hne : key ≠ other)
    (v w : α) : put (put t key v) other w = put (put t other w) key v := by
  induction t with
  | nil => simp [keys] at hkey
  | cons entry rest ih =>
    obtain ⟨k, u⟩ := entry
    by_cases hk : k = key
    · subst hk
      simp [put, hne]
    · have hrest : key ∈ keys rest := (List.mem_cons.mp hkey).resolve_left (Ne.symm hk)
      by_cases ho : k = other
      · subst ho
        simp [put, hk]
      · simp [put, hk, ho, ih hrest]

theorem Distinct.put {t : Table α} (h : Distinct t) (key : String) (v : α) :
    Distinct (put t key v) := by
  rw [Distinct, keys_put]
  by_cases hk : has t key
  · rwa [if_pos hk]
  · rw [if_neg hk]
    have hfresh : key ∉ keys t := fun hmem => hk ((has_eq_true_iff t key).mpr hmem)
    exact List.nodup_append.mpr ⟨h, by simp, by
      rintro a ha b hb rfl
      exact hfresh (List.mem_singleton.mp hb ▸ ha)⟩

/-- The entries of a distinct table after a write: the new one, and all others under other keys. -/
theorem Distinct.mem_put {t : Table α} (h : Distinct t) (key : String) (v : α)
    (entry : String × α) :
    entry ∈ Table.put t key v ↔ entry = (key, v) ∨ entry ∈ t ∧ entry.1 ≠ key := by
  obtain ⟨k, w⟩ := entry
  rw [← (h.put key v).get?_eq_some_iff, get?_put, ← h.get?_eq_some_iff k w]
  by_cases hk : key = k
  · simp [hk, eq_comm]
  · simp [hk, Ne.symm hk]

/-- Behind a write, a test that no entry under another key passes finds what was written, if it
passes. -/
theorem Distinct.find?_put {t : Table α} (h : Distinct t) {key : String} (v : α)
    {p : String × α → Bool} (hother : ∀ entry ∈ t, p entry = true → entry.1 = key) :
    (Table.put t key v).find? p = if p (key, v) then some (key, v) else none := by
  have hone : ∀ entry ∈ Table.put t key v, p entry = true → entry = (key, v) := by
    intro entry hentry hpasses
    refine ((h.mem_put key v entry).mp hentry).resolve_right ?_
    exact fun hold => hold.2 (hother entry hold.1 hpasses)
  cases hfound : (Table.put t key v).find? p with
  | none =>
    have hnone := List.find?_eq_none.mp hfound _ ((h.mem_put key v _).mpr (.inl rfl))
    rw [if_neg hnone]
  | some entry =>
    have hpasses := List.find?_some hfound
    have hsame := hone entry (List.mem_of_find?_eq_some hfound) hpasses
    rw [hsame] at hpasses ⊢
    rw [if_pos hpasses]

/-- Behind a write over the first entry that passes a test, the new entry is the first one, if it
passes too. -/
theorem find?_put_of_find? {t : Table α} {key : String} {old v : α} {p : String × α → Bool}
    (h : t.find? p = some (key, old)) (hv : p (key, v) = true) :
    (put t key v).find? p = some (key, v) := by
  induction t with
  | nil => cases h
  | cons entry rest ih =>
    obtain ⟨k, w⟩ := entry
    rw [put]
    by_cases hk : k = key
    · rw [if_pos hk, hk, List.find?_cons_of_pos hv]
    · rw [if_neg hk]
      by_cases hpasses : p (k, w) = true
      · rw [List.find?_cons_of_pos hpasses] at h
        exact absurd (congrArg Prod.fst (Option.some.inj h)) hk
      · rw [List.find?_cons_of_neg hpasses] at h ⊢
        exact ih h

/-- A write leaves the entries as they are that a test passes, if the test neither passes the new
entry nor one under its key. -/
theorem filter_put (t : Table α) (key : String) (v : α) (p : String × α → Bool)
    (hnew : p (key, v) = false) (hold : ∀ w, (key, w) ∈ t → p (key, w) = false) :
    (put t key v).filter p = t.filter p := by
  induction t with
  | nil => simp [put, hnew]
  | cons entry rest ih =>
    obtain ⟨k, w⟩ := entry
    by_cases hk : k = key
    · subst hk
      simp [put, hnew, hold w List.mem_cons_self]
    · simp only [put, hk, if_false, List.filter_cons]
      rw [ih fun u hu => hold u (List.mem_cons_of_mem _ hu)]

/-- A write stays a write among the entries that a test passes, if the test passes the new entry and
those under its key. -/
theorem filter_put_of {t : Table α} {key : String} {v : α} {p : String × α → Bool}
    (hnew : p (key, v) = true) (hold : ∀ w, (key, w) ∈ t → p (key, w) = true) :
    (put t key v).filter p = put (t.filter p) key v := by
  induction t with
  | nil => simp [put, hnew]
  | cons entry rest ih =>
    obtain ⟨k, w⟩ := entry
    have hrest := ih fun u hu => hold u (List.mem_cons_of_mem _ hu)
    by_cases hk : k = key
    · subst hk
      simp [put, hnew, hold w List.mem_cons_self]
    · by_cases hp : p (k, w) = true
      · simp [put, hk, hp, hrest]
      · simp [put, hk, hp, hrest]

theorem map_put {β : Type v} (f : α → β) (t : Table α) (key : String) (v : α) :
    (put t key v).map (fun entry => (entry.1, f entry.2)) =
      put (t.map fun entry => (entry.1, f entry.2)) key (f v) := by
  induction t with
  | nil => rfl
  | cons entry rest ih =>
    obtain ⟨k, w⟩ := entry
    by_cases hk : k = key
    · simp [put, hk]
    · simp [put, hk, ih]

theorem Distinct.putAll {t : Table α} (h : Distinct t) (entries : List (String × α)) :
    Distinct (putAll t entries) := by
  induction entries generalizing t with
  | nil => exact h
  | cons entry rest ih => exact ih (h.put entry.1 entry.2)

theorem distinct_ofEntries (entries : List (String × α)) : Distinct (ofEntries entries) :=
  Distinct.nil.putAll entries

/-- Of entries that are written under the same key the last one is found. -/
theorem get?_ofEntries (entries : List (String × α)) (key : String) :
    get? (ofEntries entries) key =
      (entries.reverse.find? fun entry => entry.1 == key).map (·.2) := by
  rw [ofEntries, ← List.foldr_reverse]
  induction entries.reverse with
  | nil => rfl
  | cons entry rest ih =>
    rw [List.foldr_cons, get?_put, ih, List.find?_cons]
    by_cases hk : entry.1 = key
    · simp [hk]
    · simp [hk, beq_eq_false_iff_ne.mpr hk]

/-- Entries whose values are told by their keys are found, however often a key is written. -/
theorem get?_ofEntries_filterMap {keys : List String} (value : String → Option α) {key : String}
    (hkey : key ∈ keys) :
    get? (ofEntries (keys.filterMap fun key => (value key).map fun v => (key, v))) key =
      value key := by
  rw [get?_ofEntries]
  cases hfind : (keys.filterMap fun key => (value key).map fun v => (key, v)).reverse.find?
      fun entry => entry.1 == key with
  | none =>
    rw [List.find?_eq_none] at hfind
    cases hvalue : value key with
    | none => rfl
    | some v =>
      have hmem : (key, v) ∈
          (keys.filterMap fun key => (value key).map fun v => (key, v)).reverse :=
        List.mem_reverse.mpr (List.mem_filterMap.mpr ⟨key, hkey, by rw [hvalue]; rfl⟩)
      exact absurd (beq_self_eq_true key) (hfind (key, v) hmem)
  | some entry =>
    have hmem := List.mem_reverse.mp (List.mem_of_find?_eq_some hfind)
    obtain ⟨other, -, hother⟩ := List.mem_filterMap.mp hmem
    obtain ⟨v, hv, rfl⟩ := Option.map_eq_some_iff.mp hother
    have hsame := List.find?_some hfind
    rw [← eq_of_beq hsame]
    exact hv.symm

/-- Of entries that are written under distinct keys each is found, and else what was there. -/
theorem get?_putAll {entries : Table α} (h : Distinct entries) (t : Table α) (key : String) :
    get? (putAll t entries) key = (get? entries key).or (get? t key) := by
  induction entries generalizing t with
  | nil => rfl
  | cons entry rest ih =>
    obtain ⟨k, v⟩ := entry
    have hstep : putAll t ((k, v) :: rest) = putAll (put t k v) rest := rfl
    rw [hstep, ih h.tail, get?_put, get?]
    by_cases hk : k = key
    · subst hk
      rw [if_pos rfl, if_pos rfl, (get?_eq_none_iff rest k).mpr h.head_not_mem]
      rfl
    · rw [if_neg hk, if_neg hk]

/-- Entries under new and distinct keys written one after another stand behind the others. -/
theorem putAll_eq_append {t entries : Table α} (h : Distinct (t ++ entries)) :
    putAll t entries = t ++ entries := by
  induction entries generalizing t with
  | nil => simp [putAll]
  | cons entry rest ih =>
    have hassoc : t ++ entry :: rest = t ++ [entry] ++ rest := by simp
    have hnew : entry.1 ∉ keys t := by
      intro hmem
      rw [Distinct, keys, List.map_append, List.nodup_append] at h
      exact h.2.2 _ hmem _ (by simp) rfl
    have hput : put t entry.1 entry.2 = t ++ [entry] := put_of_not_mem hnew _
    rw [putAll, List.foldl_cons, hput, hassoc]
    exact ih (hassoc ▸ h)

/-- Entries under distinct keys make a table as they stand. -/
theorem Distinct.ofEntries_eq_self {t : Table α} (h : Distinct t) : ofEntries t = t :=
  putAll_eq_append (t := []) (by simpa using h)

/-! ### Removing -/

theorem mem_remove (t : Table α) (key : String) (entry : String × α) :
    entry ∈ remove t key ↔ entry ∈ t ∧ entry.1 ≠ key := by
  simp [remove]

theorem Distinct.remove {t : Table α} (h : Distinct t) (key : String) : Distinct (remove t key) :=
  h.filter _

theorem get?_remove (t : Table α) (key other : String) :
    get? (remove t key) other = if key = other then none else get? t other := by
  induction t with
  | nil => simp [remove]
  | cons entry rest ih =>
    obtain ⟨k, w⟩ := entry
    simp only [remove, ne_eq, decide_not] at ih
    by_cases hk : k = key
    · subst hk
      by_cases ho : k = other
      · subst ho
        simpa [remove] using ih
      · simpa [remove, get?, ho] using ih
    · by_cases ho : k = other
      · subst ho
        simp [remove, get?, hk, Ne.symm hk]
      · simpa [remove, get?, hk, ho] using ih

theorem get?_without {t : Table α} {keys : List String} {key : String} (hkey : key ∉ keys) :
    get? (without t keys) key = get? t key := by
  induction t with
  | nil => rfl
  | cons entry rest ih =>
    rw [without, List.filter_cons]
    by_cases hsame : entry.1 = key
    · have hkept : (!keys.contains entry.1) = true := by simpa [hsame] using hkey
      rw [if_pos hkept, get?, get?, if_pos hsame, if_pos hsame]
    · rw [get?, if_neg hsame, ← ih]
      split_ifs
      · rw [get?, if_neg hsame]
        rfl
      · rfl

/-- A write and a removal under different keys can be made in either order. -/
theorem remove_put_of_ne (t : Table α) {key other : String} (hne : key ≠ other) (v : α) :
    remove (put t key v) other = put (remove t other) key v := by
  induction t with
  | nil => simp [put, remove, hne]
  | cons entry rest ih =>
    obtain ⟨k, w⟩ := entry
    simp only [remove, ne_eq, decide_not] at ih
    by_cases hk : k = key
    · subst hk
      simp [put, remove, hne]
    · by_cases ho : k = other
      · subst ho
        simpa [put, remove, hk] using ih
      · simpa [put, remove, hk, ho] using ih

theorem filter_remove_comm (t : Table α) (key : String) (p : String × α → Bool) :
    (remove t key).filter p = remove (t.filter p) key :=
  List.filter_comm _ _ t

theorem map_remove {β : Type v} (f : α → β) (t : Table α) (key : String) :
    (remove t key).map (fun entry => (entry.1, f entry.2)) =
      remove (t.map fun entry => (entry.1, f entry.2)) key := by
  rw [remove, remove, List.filter_map]
  rfl

/-- A removal leaves the entries as they are that a test passes, if it passes none under the removed
key. -/
theorem filter_remove (t : Table α) (key : String) (p : String × α → Bool)
    (hold : ∀ w, (key, w) ∈ t → p (key, w) = false) : (remove t key).filter p = t.filter p := by
  rw [remove, List.filter_filter]
  apply List.filter_congr
  rintro ⟨k, w⟩ hmem
  by_cases hk : k = key
  · subst hk
    simp [hold w hmem]
  · simp [hk]

end Lifecycle.Table
