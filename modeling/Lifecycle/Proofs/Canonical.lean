import Lifecycle.Proofs.Escapes
import Lifecycle.Proofs.Scalars
import Lifecycle.Proofs.Table

/-!
# What canonical texts tell

A reader who counts brackets, and knows whether it is within quotes, finds the end of the value that
a text starts with (`Json.behind`). It passes over whatever is written for a value, at every depth
(`Json.passed_canonical`), so that the texts of the parts of a list or an object can be told apart
(`Json.joined_injective`).

So two objects with the same canonical text have under each key values with the same canonical text,
in whatever order the keys stand (`Json.canonical_get?`), and a list of texts is told by its
canonical text (`Json.eq_texts_of_canonical`).
-/

namespace Lifecycle

namespace Json

/-! ### Parts of a text -/

theorem writtenItems_eq_map (style : Style) (items : List Json) :
    writtenItems style items = items.map (written style) := by
  induction items with
  | nil => rfl
  | cons item rest ih => rw [writtenItems, ih, List.map_cons]

def canonicalField (key : String) (value : Json) : List Char :=
  writtenText key.toList ++ ':' :: canonical value

theorem writtenFields_eq_map (fields : Table Json) :
    writtenFields canonicalStyle fields =
      fields.map fun field => (field.1, canonicalField field.1 field.2) := by
  induction fields with
  | nil => rfl
  | cons field rest ih =>
    rw [writtenFields, ih, List.map_cons, writtenField]
    simp [canonicalField, canonicalStyle, canonical]

/-- The fields of an object as they are written, in the order of their keys. -/
def sortedFields (fields : Table Json) : Table (List Char) :=
  sortedByKey (fields.map fun field => (field.1, canonicalField field.1 field.2))

theorem canonical_list (items : List Json) :
    canonical (.list items) = '[' :: joined [','] (items.map canonical) ++ [']'] := by
  rw [canonical, written, writtenItems_eq_map]
  rfl

theorem canonical_object (fields : Table Json) :
    canonical (.object fields) =
      '\x7b' :: joined [','] ((sortedFields fields).map Prod.snd) ++ ['\x7d'] := by
  rw [canonical, written, writtenFields_eq_map]
  rfl

theorem mem_sortedFields {fields : Table Json} {entry : String × List Char}
    (h : entry ∈ sortedFields fields) :
    ∃ field ∈ fields, entry = (field.1, canonicalField field.1 field.2) := by
  rw [sortedFields, sortedByKey, List.mem_mergeSort, List.mem_map] at h
  obtain ⟨field, hfield, rfl⟩ := h
  exact ⟨field, hfield, rfl⟩

/-! ### The end of a value -/

/-- Where a reader of a text is. -/
inductive Mode where
  /-- Not within quotes. -/
  | bare
  /-- Within quotes. -/
  | quoted
  /-- Within quotes, behind a backslash. -/
  | escaped

/-- What stands behind the rest of a value in a text, at a depth of open brackets: the text from the
first comma or closing bracket at the outermost depth. -/
def behind : Mode → Nat → List Char → List Char
  | _, _, [] => []
  | .bare, depth, c :: rest =>
    if c = '"' then behind .quoted depth rest
    else if c = '[' ∨ c = '\x7b' then behind .bare (depth + 1) rest
    else if c = ',' then if depth = 0 then c :: rest else behind .bare depth rest
    else if c = ']' ∨ c = '\x7d' then if depth = 0 then c :: rest else behind .bare (depth - 1) rest
    else behind .bare depth rest
  | .quoted, depth, c :: rest =>
    if c = '"' then behind .bare depth rest
    else if c = '\\' then behind .escaped depth rest
    else behind .quoted depth rest
  | .escaped, depth, _ :: rest => behind .quoted depth rest

/-- A text that a reader passes over at every depth. -/
def Passed (cs : List Char) : Prop :=
  ∀ depth rest, behind .bare depth (cs ++ rest) = behind .bare depth rest

theorem Passed.append {cs ds : List Char} (h : Passed cs) (h' : Passed ds) : Passed (cs ++ ds) := by
  intro depth rest
  rw [List.append_assoc, h, h']

theorem passed_scalarChars {cs : List Char} (h : cs ⊆ scalarChars) : Passed cs := by
  have hchars : ∀ c ∈ scalarChars, c ≠ '"' ∧ ¬(c = '[' ∨ c = '\x7b') ∧ c ≠ ',' ∧
      ¬(c = ']' ∨ c = '\x7d') := by
    simp [scalarChars]
  intro depth rest
  induction cs with
  | nil => rfl
  | cons c cs ih =>
    obtain ⟨hc, hcs⟩ := List.cons_subset.mp h
    obtain ⟨hquote, hopen, hcomma, hclose⟩ := hchars c hc
    rw [List.cons_append, behind, if_neg hquote, if_neg hopen, if_neg hcomma, if_neg hclose]
    exact ih hcs

theorem behind_escaped {c : Char} {cs : List Char} (h : Escaped c cs) (depth : Nat)
    (rest : List Char) : behind .quoted depth (cs ++ rest) = behind .quoted depth rest := by
  have hdigits : ∀ c ∈ Text.lowerHexDigits, c ≠ '"' ∧ c ≠ '\\' := by
    simp [Text.lowerHexDigits]
  have hplain : ∀ cs : List Char, cs ⊆ Text.lowerHexDigits → ∀ rest,
      behind .quoted depth (cs ++ rest) = behind .quoted depth rest := by
    intro cs hcs rest
    induction cs with
    | nil => rfl
    | cons c cs ih =>
      obtain ⟨hc, hcs⟩ := List.cons_subset.mp hcs
      obtain ⟨hquote, hbackslash⟩ := hdigits c hc
      rw [List.cons_append, behind, if_neg hquote, if_neg hbackslash]
      exact ih hcs
  have hunit : ∀ n rest, behind .quoted depth ('\\' :: 'u' :: Text.lowerHex 4 n ++ rest) =
      behind .quoted depth rest := by
    intro n rest
    exact hplain _ (fun _ => Text.mem_lowerHex) rest
  cases h with
  | itself quote backslash =>
    rw [List.singleton_append, behind, if_neg quote, if_neg backslash]
  | mark => rfl
  | unit => exact hunit _ rest
  | pair => rw [List.append_assoc, hunit, hunit]

theorem passed_writtenText (cs : List Char) : Passed (writtenText cs) := by
  intro depth rest
  have hinner : behind .quoted depth (cs.flatMap escapedChar ++ '"' :: rest) =
      behind .bare depth rest := by
    induction cs with
    | nil => rfl
    | cons c cs ih =>
      rw [List.flatMap_cons, List.append_assoc, behind_escaped (escaped_escapedChar c)]
      exact ih
  rw [writtenText, List.append_assoc]
  exact hinner

/-- Within brackets a reader passes over commas too. -/
theorem behind_joined {parts : List (List Char)} (h : ∀ part ∈ parts, Passed part) (depth : Nat)
    (rest : List Char) :
    behind .bare (depth + 1) (joined [','] parts ++ rest) = behind .bare (depth + 1) rest := by
  induction parts with
  | nil => rfl
  | cons part parts ih =>
    have hpart := h part List.mem_cons_self
    have hparts := ih fun other hother => h other (List.mem_cons_of_mem _ hother)
    cases parts with
    | nil => exact hpart _ rest
    | cons next parts =>
      rw [joined, List.append_assoc, List.append_assoc, hpart]
      · exact hparts
      · exact List.cons_ne_nil _ _

theorem passed_bracketed {parts : List (List Char)} (h : ∀ part ∈ parts, Passed part)
    {opening closing : Char} (hopening : opening = '[' ∨ opening = '\x7b')
    (hclosing : closing = ']' ∨ closing = '\x7d') :
    Passed (opening :: joined [','] parts ++ [closing]) := by
  intro depth rest
  have hclose : behind .bare (depth + 1) ([closing] ++ rest) = behind .bare depth rest := by
    rcases hclosing with rfl | rfl <;> rfl
  have hopen : behind .bare depth (opening :: joined [','] parts ++ [closing] ++ rest) =
      behind .bare (depth + 1) (joined [','] parts ++ ([closing] ++ rest)) := by
    rw [← List.append_assoc]
    rcases hopening with rfl | rfl <;> rfl
  rw [hopen, behind_joined h, hclose]

/-- A reader passes over whatever is written for a value. -/
theorem passed_canonical (value : Json) : Passed (canonical value) := by
  induction value using induct with
  | scalar value hvalue => exact passed_scalarChars (written_scalar_subset hvalue _)
  | text s => exact passed_writtenText s.toList
  | list items ih =>
    rw [canonical_list]
    refine passed_bracketed ?_ (.inl rfl) (.inl rfl)
    intro part hpart
    obtain ⟨item, hitem, rfl⟩ := List.mem_map.mp hpart
    exact ih item hitem
  | object fields ih =>
    rw [canonical_object]
    refine passed_bracketed ?_ (.inr rfl) (.inr rfl)
    intro part hpart
    obtain ⟨entry, hentry, rfl⟩ := List.mem_map.mp hpart
    obtain ⟨field, hfield, rfl⟩ := mem_sortedFields hentry
    have hcolon : Passed [':'] := fun _ _ => rfl
    exact (passed_writtenText _).append (hcolon.append (ih field hfield))

theorem canonical_ne_nil (value : Json) : canonical value ≠ [] := by
  induction value using induct with
  | scalar value hvalue => exact written_scalar_ne_nil hvalue _
  | text s => exact List.cons_ne_nil _ _
  | list items => exact List.cons_ne_nil _ _
  | object fields => exact List.cons_ne_nil _ _

/-! ### Parts of a value -/

def following (parts : List (List Char)) : List Char :=
  if parts.isEmpty then [] else ',' :: joined [','] parts

theorem joined_cons (part : List Char) (parts : List (List Char)) :
    joined [','] (part :: parts) = part ++ following parts := by
  cases parts with
  | nil => exact (List.append_nil part).symm
  | cons next parts => simp [joined, following]

theorem behind_following (parts : List (List Char)) :
    behind .bare 0 (following parts) = following parts := by
  cases parts <;> rfl

/-- Parts with commas between them are told by the text. -/
theorem joined_injective {a b : List (List Char)} (ha : ∀ part ∈ a, Passed part ∧ part ≠ [])
    (hb : ∀ part ∈ b, Passed part ∧ part ≠ []) (h : joined [','] a = joined [','] b) : a = b := by
  induction a generalizing b with
  | nil =>
    cases b with
    | nil => rfl
    | cons part rest =>
      rw [joined_cons] at h
      exact absurd (List.append_eq_nil_iff.mp h.symm).1 (hb part List.mem_cons_self).2
  | cons part rest ih =>
    obtain ⟨hpassed, hnonempty⟩ := ha part List.mem_cons_self
    cases b with
    | nil =>
      rw [joined_cons] at h
      exact absurd (List.append_eq_nil_iff.mp h).1 hnonempty
    | cons other more =>
      obtain ⟨hpassed', -⟩ := hb other List.mem_cons_self
      rw [joined_cons, joined_cons] at h
      -- behind its first part each of the texts goes on in the same way
      have hrest : following rest = following more :=
        calc following rest
          _ = behind .bare 0 (part ++ following rest) := by rw [hpassed, behind_following]
          _ = behind .bare 0 (other ++ following more) := by rw [h]
          _ = following more := by rw [hpassed', behind_following]
      rw [hrest] at h
      have hjoined : joined [','] rest = joined [','] more := by
        cases rest with
        | nil =>
          cases more with
          | nil => rfl
          | cons _ _ => simp [following] at hrest
        | cons _ _ =>
          cases more with
          | nil => simp [following] at hrest
          | cons _ _ => simpa [following] using hrest
      rw [List.append_cancel_right h, ih (fun part hpart => ha part (List.mem_cons_of_mem _ hpart))
        (fun part hpart => hb part (List.mem_cons_of_mem _ hpart)) hjoined]

/-! ### Fields of an object -/

theorem keyOrder_trans (a b c : String × List Char) (hab : decide (a.1 ≤ b.1) = true)
    (hbc : decide (b.1 ≤ c.1) = true) : decide (a.1 ≤ c.1) = true :=
  decide_eq_true (String.le_trans (of_decide_eq_true hab) (of_decide_eq_true hbc))

theorem keyOrder_total (a b : String × List Char) :
    (decide (a.1 ≤ b.1) || decide (b.1 ≤ a.1)) = true := by
  simpa using String.le_total a.1 b.1

/-- Sorting keeps what stands under a key, in its order. -/
theorem filter_sortedByKey (entries : Table (List Char)) (key : String) :
    (sortedByKey entries).filter (fun entry => entry.1 = key) =
      entries.filter fun entry => entry.1 = key := by
  have hsame : (entries.filter fun entry => entry.1 = key).Pairwise
      fun a b => decide (a.1 ≤ b.1) = true := by
    rw [List.pairwise_iff_forall_sublist]
    intro a b hab
    have ha := (List.mem_filter.mp (hab.mem (List.mem_cons_self))).2
    have hb := (List.mem_filter.mp (hab.mem (List.mem_cons_of_mem _ List.mem_cons_self))).2
    simp only [decide_eq_true_eq] at ha hb
    simp [ha, hb]
  -- sorting is stable, so that entries under one key are a sublist of the sorted ones
  have hkept : (entries.filter fun entry => entry.1 = key).Sublist (sortedByKey entries) :=
    List.sublist_mergeSort keyOrder_trans keyOrder_total hsame List.filter_sublist
  have hsub := hkept.filter fun entry => decide (entry.1 = key)
  rw [List.filter_filter] at hsub
  simp only [Bool.and_self] at hsub
  have hperm : (sortedByKey entries).Perm entries := List.mergeSort_perm _ _
  exact (hsub.eq_of_length (hperm.filter _).length_eq.symm).symm

end Json

theorem Table.get?_eq_head? {α : Type} (t : Table α) (key : String) :
    get? t key = (t.filter fun entry => entry.1 = key).head?.map Prod.snd := by
  induction t with
  | nil => rfl
  | cons entry rest ih =>
    rw [List.filter_cons, get?]
    by_cases hkey : entry.1 = key
    · simp [hkey]
    · simp [hkey, ih]

namespace Json

theorem get?_sortedFields (fields : Table Json) (key : String) :
    Table.get? (sortedFields fields) key = (Table.get? fields key).map (canonicalField key) := by
  have hwritten : ∀ fields : Table Json,
      Table.get? (fields.map fun field => (field.1, canonicalField field.1 field.2)) key =
        (Table.get? fields key).map (canonicalField key) := by
    intro fields
    induction fields with
    | nil => rfl
    | cons field rest ih =>
      rw [List.map_cons, Table.get?, Table.get?]
      by_cases hkey : field.1 = key
      · rw [if_pos hkey, if_pos hkey, hkey]
        rfl
      · rw [if_neg hkey, if_neg hkey, ih]
  rw [← hwritten, Table.get?_eq_head?, sortedFields, filter_sortedByKey, ← Table.get?_eq_head?]

theorem canonicalField_append {key other : String} {value found : Json}
    (h : canonicalField key value = canonicalField other found) :
    key = other ∧ canonical value = canonical found := by
  obtain ⟨hkey, hrest⟩ := writtenText_append h
  exact ⟨String.toList_injective hkey, (List.cons.inj hrest).2⟩

/-- Two lists with the same images are the same if no two of their items have the same image. -/
theorem eq_of_map_eq {α β : Type} {f : α → β} {xs ys : List α}
    (hinj : ∀ x ∈ xs, ∀ y ∈ ys, f x = f y → x = y) (h : xs.map f = ys.map f) : xs = ys := by
  have hlength : xs.length = ys.length := by simpa using congrArg List.length h
  apply List.ext_getElem hlength
  intro i hi hi'
  apply hinj _ (List.getElem_mem hi) _ (List.getElem_mem hi')
  have hget := List.getElem_of_eq h (by simpa using hi)
  simpa using hget

/-- An object is told by its canonical text, but for the order of its keys and what is told of the
values under them. -/
theorem sortedFields_eq {a b : Table Json} (h : canonical (.object a) = canonical (.object b)) :
    sortedFields a = sortedFields b := by
  have hparts : ∀ fields : Table Json, ∀ part ∈ (sortedFields fields).map Prod.snd,
      Passed part ∧ part ≠ [] := by
    intro fields part hpart
    obtain ⟨entry, hentry, rfl⟩ := List.mem_map.mp hpart
    obtain ⟨field, -, rfl⟩ := mem_sortedFields hentry
    have hcolon : Passed [':'] := fun _ _ => rfl
    exact ⟨(passed_writtenText _).append (hcolon.append (passed_canonical _)),
      List.cons_ne_nil _ _⟩
  rw [canonical_object, canonical_object] at h
  have htexts := joined_injective (hparts a) (hparts b)
    (List.append_cancel_right (List.cons.inj h).2)
  refine eq_of_map_eq ?_ htexts
  intro entry hentry other hother htext
  obtain ⟨field, -, rfl⟩ := mem_sortedFields hentry
  obtain ⟨found, -, rfl⟩ := mem_sortedFields hother
  have hkey : field.1 = found.1 := (canonicalField_append htext).1
  exact Prod.ext hkey htext

/-- Objects with the same canonical text have under each key values with the same one. -/
theorem canonical_get? {a b : Table Json} (h : canonical (.object a) = canonical (.object b))
    (key : String) : (Table.get? a key).map canonical = (Table.get? b key).map canonical := by
  have hfields : (Table.get? a key).map (canonicalField key) =
      (Table.get? b key).map (canonicalField key) := by
    rw [← get?_sortedFields, ← get?_sortedFields, sortedFields_eq h]
  cases ha : Table.get? a key with
  | none =>
    cases hb : Table.get? b key with
    | none => rfl
    | some found => simp [ha, hb] at hfields
  | some value =>
    cases hb : Table.get? b key with
    | none => simp [ha, hb] at hfields
    | some found =>
      rw [ha, hb, Option.map_some, Option.map_some] at hfields
      exact congrArg some (canonicalField_append (Option.some.inj hfields)).2

/-- The canonical text of an object whose fields are sorted. -/
def sortedText (sorted : Table Json) : List Char :=
  '\x7b' :: joined [','] (sorted.map fun field => canonicalField field.1 field.2) ++ ['\x7d']

/-- The canonical text of an object is that of its fields sorted, in whatever order they stand. -/
theorem canonical_object_of_perm {fields sorted : Table Json} (hperm : sorted.Perm fields)
    (hdistinct : Table.Distinct sorted) (hkeys : sorted.keys.Pairwise (· ≤ ·)) :
    canonical (.object fields) = sortedText sorted := by
  have hsame : (sortedFields fields).Perm
      (sorted.map fun field => (field.1, canonicalField field.1 field.2)) :=
    (List.mergeSort_perm _ _).trans (hperm.symm.map _)
  have hsorted : (sorted.map fun field => (field.1, canonicalField field.1 field.2)).Pairwise
      fun a b : String × List Char => decide (a.1 ≤ b.1) = true := by
    rw [List.pairwise_map]
    exact (List.pairwise_map.mp hkeys).imp decide_eq_true
  have hnodup : ((sorted.map fun field => (field.1, canonicalField field.1 field.2)).map
      Prod.fst).Nodup := by
    rwa [List.map_map]
  have hfields : sortedFields fields =
      sorted.map fun field => (field.1, canonicalField field.1 field.2) := by
    refine List.Perm.eq_of_pairwise ?_ (List.pairwise_mergeSort keyOrder_trans keyOrder_total _)
      hsorted hsame
    -- with distinct keys there is one order only
    intro a b ha hb hab hba
    have hkey : a.1 = b.1 :=
      String.le_antisymm (of_decide_eq_true hab) (of_decide_eq_true hba)
    exact List.inj_on_of_nodup_map hnodup (hsame.subset ha) hb hkey
  rw [canonical_object, hfields, List.map_map]
  rfl

/-! ### Lists of texts -/

theorem not_isScalar_of_canonical {value : Json} {c : Char} {rest : List Char}
    (h : canonical value = c :: rest) (hc : c ∉ scalarChars) : ¬value.IsScalar := by
  intro hvalue
  have hmem : c ∈ canonical value := by
    rw [h]
    exact List.mem_cons_self
  exact hc (written_scalar_subset hvalue _ hmem)

theorem eq_text_of_canonical {value : Json} {s : String}
    (h : canonical value = canonical (.text s)) : value = .text s := by
  induction value using induct with
  | scalar value hvalue => exact absurd hvalue (not_isScalar_of_canonical h (by decide))
  | text other =>
    have hsame : writtenText other.toList ++ [] = writtenText s.toList ++ [] := by
      rw [List.append_nil, List.append_nil]
      exact h
    rw [String.toList_injective (writtenText_append hsame).1]
  | list items =>
    rw [canonical_list] at h
    exact absurd (List.cons.inj h).1 (by decide)
  | object fields =>
    rw [canonical_object] at h
    exact absurd (List.cons.inj h).1 (by decide)

/-- The items of a list have the canonical texts that its own has. -/
theorem map_canonical_of_canonical {a b : List Json}
    (h : canonical (.list a) = canonical (.list b)) : a.map canonical = b.map canonical := by
  have hparts : ∀ items : List Json, ∀ part ∈ items.map canonical, Passed part ∧ part ≠ [] := by
    intro items part hpart
    obtain ⟨item, -, rfl⟩ := List.mem_map.mp hpart
    exact ⟨passed_canonical item, canonical_ne_nil item⟩
  rw [canonical_list, canonical_list] at h
  exact joined_injective (hparts a) (hparts b) (List.append_cancel_right (List.cons.inj h).2)

/-- A list of texts is told by its canonical text. -/
theorem eq_texts_of_canonical {value : Json} {items : List String}
    (h : canonical value = canonical (texts items)) : value = texts items := by
  have hlist : canonical (texts items) =
      '[' :: joined [','] ((items.map Json.text).map canonical) ++ [']'] := canonical_list _
  induction value using induct with
  | scalar value hvalue =>
    exact absurd hvalue (not_isScalar_of_canonical (h.trans hlist) (by decide))
  | text s => exact absurd (List.cons.inj (h.trans hlist)).1 (by decide)
  | list found =>
    rw [texts]
    congr 1
    refine eq_of_map_eq ?_ (map_canonical_of_canonical h)
    intro item _ other hother htext
    obtain ⟨s, -, rfl⟩ := List.mem_map.mp hother
    exact eq_text_of_canonical htext
  | object fields =>
    rw [hlist, canonical_object] at h
    exact absurd (List.cons.inj h).1 (by decide)

/-! ### Characters -/

theorem mem_joined {parts : List (List Char)} {c : Char} (h : c ∈ joined [','] parts) :
    c = ',' ∨ ∃ part ∈ parts, c ∈ part := by
  induction parts with
  | nil => cases h
  | cons part rest ih =>
    rw [joined_cons, List.mem_append] at h
    rcases h with h | h
    · exact .inr ⟨part, List.mem_cons_self, h⟩
    · rw [following] at h
      split_ifs at h
      · cases h
      · rcases List.mem_cons.mp h with rfl | h
        · exact .inl rfl
        · rcases ih h with rfl | ⟨other, hother, hc⟩
          · exact .inl rfl
          · exact .inr ⟨other, List.mem_cons_of_mem _ hother, hc⟩

/-- Canonical texts are in ASCII. -/
theorem ascii_canonical (value : Json) : ∀ c ∈ canonical value, c.toNat < 128 := by
  have hchars : ∀ c ∈ scalarChars, c.toNat < 128 := by simp [scalarChars]
  have hjoined : ∀ (parts : List (List Char)) (opening closing : Char),
      (∀ part ∈ parts, ∀ c ∈ part, c.toNat < 128) → opening.toNat < 128 → closing.toNat < 128 →
        ∀ c ∈ opening :: joined [','] parts ++ [closing], c.toNat < 128 := by
    intro parts opening closing hparts hopening hclosing c hc
    rw [List.mem_append, List.mem_cons, List.mem_singleton] at hc
    rcases hc with (rfl | hc) | rfl
    · exact hopening
    · rcases mem_joined hc with rfl | ⟨part, hpart, hc⟩
      · decide
      · exact hparts part hpart c hc
    · exact hclosing
  induction value using induct with
  | scalar value hvalue => exact fun c hc => hchars c (written_scalar_subset hvalue _ hc)
  | text s => exact ascii_writtenText s.toList
  | list items ih =>
    rw [canonical_list]
    refine hjoined _ _ _ ?_ (by decide) (by decide)
    intro part hpart
    obtain ⟨item, hitem, rfl⟩ := List.mem_map.mp hpart
    exact ih item hitem
  | object fields ih =>
    rw [canonical_object]
    refine hjoined _ _ _ ?_ (by decide) (by decide)
    intro part hpart c hc
    obtain ⟨entry, hentry, rfl⟩ := List.mem_map.mp hpart
    obtain ⟨field, hfield, rfl⟩ := mem_sortedFields hentry
    rcases List.mem_append.mp hc with hc | hc
    · exact ascii_writtenText _ c hc
    rcases List.mem_cons.mp hc with rfl | hc
    · decide
    · exact ih field hfield c hc

end Json

end Lifecycle
